import Mathlib
import RedisLuaLinux.Library.Run
import RedisLuaLinux.Spdlog.Logger

/-!
# The registry of loggers

`registry`: the loggers by their names, the default logger, and the settings for all loggers. Loggers are shared,
and the user may change them directly. The formatter of a sink is known by its pattern; clones are equal.

* `registry_sound`: loggers are found by their own names, the default logger among them.
* `settings_agree`: loggers that come from the factories have the settings of the registry.
* `flushAll_reaches`: `flush_all` flushes every sink of the loggers, raise what the others may.
-/

namespace RedisLuaLinux.Spdlog

open Library

/-- A logger with its custom error handler. -/
structure SharedLogger (η : Type) extends Logger where
  customErrHandler : Option η := none

namespace SharedLogger

variable {η : Type}

def setLevel (logLevel : Level) (l : SharedLogger η) : SharedLogger η := { l with level := logLevel }

def flushOn (logLevel : Level) (l : SharedLogger η) : SharedLogger η := { l with flushLevel := logLevel }

def setErrorHandler (handler : Option η) (l : SharedLogger η) : SharedLogger η :=
  { l with customErrHandler := handler }

/-- What a setting leaves alone. -/
structure Setting (f : SharedLogger η → SharedLogger η) : Prop where
  name : ∀ l, (f l).name = l.name
  sinks : ∀ l, (f l).sinks = l.sinks
  again : ∀ l, f (f l) = f l

theorem setting_level (logLevel : Level) : Setting (setLevel (η := η) logLevel) :=
  ⟨fun _ => rfl, fun _ => rfl, fun _ => rfl⟩

theorem setting_flushOn (logLevel : Level) : Setting (flushOn (η := η) logLevel) :=
  ⟨fun _ => rfl, fun _ => rfl, fun _ => rfl⟩

theorem setting_errorHandler (handler : Option η) : Setting (setErrorHandler handler) :=
  ⟨fun _ => rfl, fun _ => rfl, fun _ => rfl⟩

end SharedLogger

structure Registry (φ η : Type) where
  loggers : AList (fun _ : Text => Ptr)
  defaultLogger : Option Ptr
  formatter : φ
  level : Level := defaultLevel
  flushLevel : Level := .off
  errHandler : Option η := none
  automaticRegistration : Bool := true

/-- The registry, the loggers there are, and the formatters of the sinks. -/
structure LoggerWorld (φ η : Type) where
  registry : Registry φ η
  heap : Ptr → Option (SharedLogger η)
  formatters : Ptr → φ

inductive RegistryEvent (φ η : Type)
  -- what the user does to a logger
  | create (ptr : Ptr) (name : Text) (sinks : List Ptr)
  | ownLevel (ptr : Ptr) (level : Level)
  | ownFlushOn (ptr : Ptr) (level : Level)
  -- what the registry does
  | registerLogger (ptr : Ptr)
  | initializeLogger (ptr : Ptr)
  | setDefaultLogger (ptr : Option Ptr)
  | setFormatter (formatter : φ)
  | setLevel (level : Level)
  | flushOn (level : Level)
  | setErrorHandler (handler : Option η)
  | setAutomaticRegistration (automatic : Bool)
  | drop (name : Text)
  | dropAll

namespace LoggerWorld

variable {φ η : Type}

def name (w : LoggerWorld φ η) (ptr : Ptr) : Option Text := (w.heap ptr).map fun l => l.name

def get (w : LoggerWorld φ η) (name : Text) : Option Ptr := w.registry.loggers.lookup name

/-- Change a logger. -/
def onLogger (ptr : Ptr) (f : SharedLogger η → SharedLogger η) (w : LoggerWorld φ η) : LoggerWorld φ η :=
  { w with heap := Function.update w.heap ptr ((w.heap ptr).map f) }

/-- `logger::set_formatter`. -/
def formatLogger (formatter : φ) (ptr : Ptr) (w : LoggerWorld φ η) : LoggerWorld φ η :=
  { w with
    formatters := fun sink => if sink ∈ ((w.heap ptr).map fun l => l.sinks).getD [] then formatter else w.formatters sink }

/-- A loop over the loggers. -/
def each (f : Ptr → LoggerWorld φ η → LoggerWorld φ η) (w : LoggerWorld φ η) : LoggerWorld φ η :=
  w.registry.loggers.entries.foldl (fun w entry => f entry.2 w) w

/-- `register_logger_`, with the text of the exception where it raises one. -/
def register (ptr : Ptr) (name : Text) (w : LoggerWorld φ η) : LoggerWorld φ η × Option Text :=
  if (w.get name).isSome then (w, some ("logger with name '".toList ++ name ++ "' already exists".toList))
  else ({ w with registry := { w.registry with loggers := w.registry.loggers.insert name ptr } }, none)

/-- The settings that a logger is given. -/
def configured (r : Registry φ η) (l : SharedLogger η) : SharedLogger η :=
  let l := if r.errHandler.isSome then l.setErrorHandler r.errHandler else l
  (l.setLevel r.level).flushOn r.flushLevel

def configure (ptr : Ptr) (w : LoggerWorld φ η) : LoggerWorld φ η :=
  onLogger ptr (configured w.registry) (formatLogger w.registry.formatter ptr w)

def initializeLogger (ptr : Ptr) (name : Text) (w : LoggerWorld φ η) : LoggerWorld φ η × Option Text :=
  if w.registry.automaticRegistration then register ptr name (configure ptr w) else (configure ptr w, none)

/-- The map without the default logger. -/
def withoutDefault (w : LoggerWorld φ η) : AList (fun _ : Text => Ptr) :=
  match w.registry.defaultLogger.bind w.name with
  | some name => w.registry.loggers.erase name
  | none => w.registry.loggers

def setDefaultLogger (new : Option (Ptr × Text)) (w : LoggerWorld φ η) : LoggerWorld φ η :=
  { w with
    registry :=
      { w.registry with
        loggers :=
          match new with
          | some (ptr, name) => w.withoutDefault.insert name ptr
          | none => w.withoutDefault
        defaultLogger := new.map Prod.fst } }

def drop (name : Text) (w : LoggerWorld φ η) : LoggerWorld φ η :=
  { w with
    registry :=
      { w.registry with
        loggers := w.registry.loggers.erase name
        defaultLogger :=
          if w.registry.defaultLogger.bind w.name = some name then none else w.registry.defaultLogger } }

/-- The exceptions are left to the callers. -/
def step (w : LoggerWorld φ η) : RegistryEvent φ η → Option (LoggerWorld φ η)
  | .create ptr name sinks =>
    if (w.heap ptr).isSome then none
    else some { w with heap := Function.update w.heap ptr (some { name, sinks }) }
  | .ownLevel ptr level => if (w.heap ptr).isSome then some (w.onLogger ptr (.setLevel level)) else none
  | .ownFlushOn ptr level => if (w.heap ptr).isSome then some (w.onLogger ptr (.flushOn level)) else none
  | .registerLogger ptr => (w.name ptr).map fun name => (w.register ptr name).1
  | .initializeLogger ptr => (w.name ptr).map fun name => (w.initializeLogger ptr name).1
  | .setDefaultLogger none => some (w.setDefaultLogger none)
  | .setDefaultLogger (some ptr) => (w.name ptr).map fun name => w.setDefaultLogger (some (ptr, name))
  | .setFormatter formatter =>
    let w := w.each (formatLogger formatter)
    some { w with registry := { w.registry with formatter } }
  | .setLevel level =>
    let w := w.each fun ptr => onLogger ptr (.setLevel level)
    some { w with registry := { w.registry with level } }
  | .flushOn flushLevel =>
    let w := w.each fun ptr => onLogger ptr (.flushOn flushLevel)
    some { w with registry := { w.registry with flushLevel } }
  | .setErrorHandler handler =>
    let w := w.each fun ptr => onLogger ptr (.setErrorHandler handler)
    some { w with registry := { w.registry with errHandler := handler } }
  | .setAutomaticRegistration automatic =>
    some { w with registry := { w.registry with automaticRegistration := automatic } }
  | .drop name => some (w.drop name)
  | .dropAll => some { w with registry := { w.registry with loggers := ∅, defaultLogger := none } }

/-- After the constructor, which makes the default logger. -/
def new (formatter : φ) : LoggerWorld φ η where
  registry := { loggers := AList.singleton [] 0, defaultLogger := some 0, formatter }
  heap ptr := if ptr = 0 then some { name := [], sinks := [0] } else none
  formatters _ := formatter

/-! ## Names -/

variable {w w' : LoggerWorld φ η} {e : RegistryEvent φ η} {es : List (RegistryEvent φ η)}

/-- Loggers are found by their own names, the default logger among them. -/
structure Sound (w : LoggerWorld φ η) : Prop where
  named : ∀ {name ptr}, w.get name = some ptr → w.name ptr = some name
  default : ∀ {ptr}, w.registry.defaultLogger = some ptr → ∃ name, w.name ptr = some name ∧ w.get name = some ptr

/-- What the settings of the loggers leave alone. -/
structure SameNames (w w' : LoggerWorld φ η) : Prop where
  loggers : w'.registry.loggers = w.registry.loggers
  defaultLogger : w'.registry.defaultLogger = w.registry.defaultLogger
  name : ∀ {ptr name}, w.name ptr = some name → w'.name ptr = some name

theorem Sound.same (h : Sound w) (hsame : SameNames w w') : Sound w' := by
  constructor
  · intro name ptr hget
    unfold get at hget
    rw [hsame.loggers] at hget
    exact hsame.name (h.named hget)
  · intro ptr hdefault
    rw [hsame.defaultLogger] at hdefault
    obtain ⟨name, hname, hget⟩ := h.default hdefault
    refine ⟨name, hsame.name hname, ?_⟩
    unfold get
    rw [hsame.loggers]
    exact hget

theorem SameNames.refl (w : LoggerWorld φ η) : SameNames w w := ⟨rfl, rfl, id⟩

theorem SameNames.trans {w'' : LoggerWorld φ η} (h : SameNames w w') (h' : SameNames w' w'') : SameNames w w'' :=
  ⟨h'.loggers.trans h.loggers, h'.defaultLogger.trans h.defaultLogger, fun hname => h'.name (h.name hname)⟩

theorem onLogger_sameNames (ptr : Ptr) {f : SharedLogger η → SharedLogger η} (hf : SharedLogger.Setting f)
    (w : LoggerWorld φ η) : SameNames w (onLogger ptr f w) := by
  refine ⟨rfl, rfl, ?_⟩
  intro p name hname
  unfold onLogger LoggerWorld.name at *
  dsimp only
  by_cases hp : p = ptr
  · subst hp
    rw [Function.update_self, Option.map_map]
    obtain ⟨l, hl, rfl⟩ := Option.map_eq_some_iff.mp hname
    rw [hl]
    exact congrArg some (hf.name l)
  · rw [Function.update_of_ne hp]
    exact hname

theorem each_sameNames {f : Ptr → LoggerWorld φ η → LoggerWorld φ η} (hf : ∀ ptr w, SameNames w (f ptr w))
    (w : LoggerWorld φ η) : SameNames w (each f w) := by
  unfold each
  generalize w.registry.loggers.entries = entries
  induction entries generalizing w with
  | nil => exact .refl w
  | cons entry entries ih => exact (hf entry.2 w).trans (ih (f entry.2 w))

theorem Sound.register {ptr : Ptr} {name : Text} (h : Sound w) (hname : w.name ptr = some name) :
    Sound (w.register ptr name).1 := by
  unfold LoggerWorld.register
  split
  · exact h
  · rename_i hfree
    rw [Bool.not_eq_true, Option.isSome_eq_false_iff, Option.isNone_iff_eq_none] at hfree
    constructor
    · intro name' ptr' hget
      by_cases hsame : name' = name
      · subst hsame
        have hptr : some ptr = some ptr' := (AList.lookup_insert w.registry.loggers).symm.trans hget
        rw [← Option.some.inj hptr]
        exact hname
      · exact h.named ((AList.lookup_insert_ne hsame).symm.trans hget)
    · intro ptr' hdefault
      obtain ⟨name', hname', hget⟩ := h.default hdefault
      have hne : name' ≠ name := by
        intro heq
        rw [heq, hfree] at hget
        cases hget
      exact ⟨name', hname', (AList.lookup_insert_ne hne).trans hget⟩

/-- The default logger is no longer in the map, and nothing else is missing. -/
theorem lookup_withoutDefault {name : Text} {ptr : Ptr}
    (hget : w.withoutDefault.lookup name = some ptr) : w.get name = some ptr := by
  unfold LoggerWorld.withoutDefault at hget
  split at hget
  · rename_i gone _
    by_cases hsame : name = gone
    · rw [hsame, AList.lookup_erase] at hget
      cases hget
    · exact (AList.lookup_erase_ne hsame).symm.trans hget
  · exact hget

theorem Sound.setDefaultLogger {new : Option (Ptr × Text)} (h : Sound w)
    (hnew : ∀ ptr name, new = some (ptr, name) → w.name ptr = some name) : Sound (w.setDefaultLogger new) := by
  cases new with
  | none =>
    constructor
    · intro name ptr hget
      exact h.named (lookup_withoutDefault hget)
    · intro ptr hdefault
      cases hdefault
  | some new =>
    obtain ⟨ptr, name⟩ := new
    have hname := hnew ptr name rfl
    constructor
    · intro name' ptr' hget
      by_cases hsame : name' = name
      · subst hsame
        have hptr : some ptr = some ptr' := (AList.lookup_insert w.withoutDefault).symm.trans hget
        rw [← Option.some.inj hptr]
        exact hname
      · exact h.named (lookup_withoutDefault ((AList.lookup_insert_ne hsame).symm.trans hget))
    · intro ptr' hdefault
      rw [← Option.some.inj hdefault]
      exact ⟨name, hname, AList.lookup_insert w.withoutDefault⟩

theorem Sound.drop {name : Text} (h : Sound w) : Sound (w.drop name) := by
  constructor
  · intro name' ptr hget
    by_cases hsame : name' = name
    · rw [hsame] at hget
      have hnone := (AList.lookup_erase name w.registry.loggers).symm.trans hget
      cases hnone
    · exact h.named ((AList.lookup_erase_ne hsame).symm.trans hget)
  · intro ptr hdefault
    obtain ⟨hkept, hold⟩ := Option.ite_none_left_eq_some.mp hdefault
    obtain ⟨name', hname', hget⟩ := h.default hold
    have hne : name' ≠ name := by
      intro heq
      apply hkept
      rw [hold, ← heq]
      exact hname'
    exact ⟨name', hname', (AList.lookup_erase_ne hne).trans hget⟩

theorem setting_configured (r : Registry φ η) : SharedLogger.Setting (configured r) := by
  unfold configured
  constructor
  · intro l
    dsimp only
    split <;> rfl
  · intro l
    dsimp only
    split <;> rfl
  · intro l
    dsimp only
    split <;> rfl

theorem configure_sameNames (ptr : Ptr) (w : LoggerWorld φ η) : SameNames w (configure ptr w) := by
  have hformat : SameNames w (formatLogger w.registry.formatter ptr w) := ⟨rfl, rfl, id⟩
  exact hformat.trans (onLogger_sameNames ptr (setting_configured w.registry) _)

theorem settings_sameNames {f : SharedLogger η → SharedLogger η} (hf : SharedLogger.Setting f)
    (w : LoggerWorld φ η) : SameNames w (each (fun ptr => onLogger ptr f) w) :=
  each_sameNames (fun ptr w => onLogger_sameNames ptr hf w) w

theorem sound_step (h : Sound w) (hstep : step w e = some w') : Sound w' := by
  cases e with
  | create ptr name sinks =>
    obtain ⟨hfree, hnew⟩ := Option.ite_none_left_eq_some.mp hstep
    obtain rfl := Option.some.inj hnew
    refine h.same ⟨rfl, rfl, ?_⟩
    intro p name' hname
    have hne : p ≠ ptr := by
      rintro rfl
      unfold LoggerWorld.name at hname
      rw [Bool.not_eq_true, Option.isSome_eq_false_iff, Option.isNone_iff_eq_none] at hfree
      rw [hfree] at hname
      cases hname
    unfold LoggerWorld.name
    dsimp only
    rw [Function.update_of_ne hne]
    exact hname
  | ownLevel ptr level =>
    obtain ⟨-, hnew⟩ := Option.ite_none_right_eq_some.mp hstep
    obtain rfl := Option.some.inj hnew
    exact h.same (onLogger_sameNames ptr (SharedLogger.setting_level level) w)
  | ownFlushOn ptr level =>
    obtain ⟨-, hnew⟩ := Option.ite_none_right_eq_some.mp hstep
    obtain rfl := Option.some.inj hnew
    exact h.same (onLogger_sameNames ptr (SharedLogger.setting_flushOn level) w)
  | registerLogger ptr =>
    obtain ⟨name, hname, rfl⟩ := Option.map_eq_some_iff.mp hstep
    exact h.register hname
  | initializeLogger ptr =>
    obtain ⟨name, hname, rfl⟩ := Option.map_eq_some_iff.mp hstep
    have hsame := configure_sameNames ptr w
    unfold initializeLogger
    split
    · exact (h.same hsame).register (hsame.name hname)
    · exact h.same hsame
  | setDefaultLogger new =>
    cases new with
    | none =>
      obtain rfl := Option.some.inj hstep
      exact h.setDefaultLogger fun ptr name hnew => by cases hnew
    | some ptr =>
      obtain ⟨name, hname, rfl⟩ := Option.map_eq_some_iff.mp hstep
      apply h.setDefaultLogger
      intro ptr' name' hnew
      obtain ⟨rfl, rfl⟩ := Prod.mk.inj (Option.some.inj hnew)
      exact hname
  | setFormatter formatter =>
    obtain rfl := Option.some.inj hstep
    have hsame := each_sameNames (f := formatLogger formatter) (fun _ _ => ⟨rfl, rfl, id⟩) w
    exact h.same ⟨hsame.loggers, hsame.defaultLogger, hsame.name⟩
  | setLevel level =>
    obtain rfl := Option.some.inj hstep
    have hsame := settings_sameNames (SharedLogger.setting_level level) w
    exact h.same ⟨hsame.loggers, hsame.defaultLogger, hsame.name⟩
  | flushOn level =>
    obtain rfl := Option.some.inj hstep
    have hsame := settings_sameNames (SharedLogger.setting_flushOn level) w
    exact h.same ⟨hsame.loggers, hsame.defaultLogger, hsame.name⟩
  | setErrorHandler handler =>
    obtain rfl := Option.some.inj hstep
    have hsame := settings_sameNames (SharedLogger.setting_errorHandler handler) w
    exact h.same ⟨hsame.loggers, hsame.defaultLogger, hsame.name⟩
  | setAutomaticRegistration automatic =>
    obtain rfl := Option.some.inj hstep
    exact h.same ⟨rfl, rfl, id⟩
  | drop name =>
    obtain rfl := Option.some.inj hstep
    exact h.drop
  | dropAll =>
    obtain rfl := Option.some.inj hstep
    constructor
    · intro name ptr hget
      cases hget
    · intro ptr hdefault
      cases hdefault

theorem sound_new (formatter : φ) : Sound (new (η := η) formatter) := by
  constructor
  · intro name ptr hget
    have hentry : (⟨name, ptr⟩ : Sigma fun _ : Text => Ptr) ∈ [⟨[], 0⟩] := AList.mem_lookup_iff.mp hget
    cases List.mem_singleton.mp hentry
    rfl
  · intro ptr hdefault
    obtain rfl := Option.some.inj hdefault
    exact ⟨[], rfl, rfl⟩

/-- In every reachable state loggers are found by their own names, the default logger among them. -/
theorem registry_sound {formatter : φ} (h : Run step AnyStep (new formatter) es w) :
    (∀ name ptr, w.get name = some ptr → w.name ptr = some name) ∧
      ∀ ptr, w.registry.defaultLogger = some ptr → ∃ name, w.name ptr = some name ∧ w.get name = some ptr := by
  have hsound : Sound w := h.invariant (sound_new formatter) fun w e w' hw _ hstep => sound_step hw hstep
  exact ⟨fun name ptr => hsound.named, fun ptr => hsound.default⟩

/-! ## Settings -/

/-- A logger has the settings of the registry, and its sinks the formatter. -/
structure Agrees (r : Registry φ η) (formatters : Ptr → φ) (l : SharedLogger η) : Prop where
  level : l.level = r.level
  flushLevel : l.flushLevel = r.flushLevel
  errHandler : ∀ handler, r.errHandler = some handler → l.customErrHandler = some handler
  formatter : ∀ sink ∈ l.sinks, formatters sink = r.formatter

def Agreed (w : LoggerWorld φ η) : Prop :=
  ∀ name ptr l, w.get name = some ptr → w.heap ptr = some l → Agrees w.registry w.formatters l

/-- The loggers come from the factories, their settings are left to the registry, and the default logger is one
that can be found. -/
def Managed (w : LoggerWorld φ η) : RegistryEvent φ η → Prop
  | .ownLevel _ _ => False
  | .ownFlushOn _ _ => False
  | .registerLogger _ => False
  | .setDefaultLogger (some ptr) => ∃ name, w.get name = some ptr
  | _ => True

/-- The addresses of the registered loggers. -/
def ptrs (w : LoggerWorld φ η) : List Ptr := w.registry.loggers.entries.map Sigma.snd

theorem mem_ptrs {name : Text} {ptr : Ptr} (h : w.get name = some ptr) : ptr ∈ w.ptrs :=
  List.mem_map.mpr ⟨⟨name, ptr⟩, AList.mem_lookup_iff.mp h, rfl⟩

/-- A setting for some loggers. -/
theorem foldl_onLogger {f : SharedLogger η → SharedLogger η} (hf : SharedLogger.Setting f)
    (entries : List (Sigma fun _ : Text => Ptr)) (w : LoggerWorld φ η) :
    let w' := entries.foldl (fun w entry => onLogger entry.2 f w) w
    w'.registry = w.registry ∧ w'.formatters = w.formatters ∧
      ∀ ptr, w'.heap ptr = if ptr ∈ entries.map Sigma.snd then (w.heap ptr).map f else w.heap ptr := by
  induction entries generalizing w with
  | nil => exact ⟨rfl, rfl, fun ptr => (if_neg List.not_mem_nil).symm⟩
  | cons entry entries ih =>
    obtain ⟨hregistry, hformatters, hheap⟩ := ih (onLogger entry.2 f w)
    refine ⟨hregistry, hformatters, fun ptr => ?_⟩
    show (entries.foldl _ (onLogger entry.2 f w)).heap ptr = _
    rw [hheap, List.map_cons]
    by_cases hptr : ptr = entry.2
    · have hfirst : (onLogger entry.2 f w).heap ptr = (w.heap ptr).map f := by
        rw [hptr]
        exact Function.update_self _ _ _
      have hagain : ((w.heap ptr).map f).map f = (w.heap ptr).map f := by
        rw [Option.map_map]
        exact congrArg (fun g => (w.heap ptr).map g) (funext hf.again)
      have hmem : ptr ∈ entry.2 :: entries.map Sigma.snd := hptr ▸ List.mem_cons_self
      rw [hfirst, hagain, ite_self]
      exact (if_pos hmem).symm
    · have hother : (onLogger entry.2 f w).heap ptr = w.heap ptr := Function.update_of_ne hptr _ _
      rw [hother]
      simp only [List.mem_cons, hptr, false_or]

/-- A formatter for the sinks of some loggers. -/
theorem foldl_formatLogger (formatter : φ) (entries : List (Sigma fun _ : Text => Ptr)) (w : LoggerWorld φ η) :
    let w' := entries.foldl (fun w entry => formatLogger formatter entry.2 w) w
    w'.registry = w.registry ∧ w'.heap = w.heap ∧
      ∀ sink, (w.formatters sink = formatter ∨
          ∃ ptr ∈ entries.map Sigma.snd, ∃ l, w.heap ptr = some l ∧ sink ∈ l.sinks) →
        w'.formatters sink = formatter := by
  induction entries generalizing w with
  | nil =>
    refine ⟨rfl, rfl, fun sink h => h.resolve_right ?_⟩
    intro hsome
    obtain ⟨ptr, hptr, -⟩ := hsome
    exact absurd hptr List.not_mem_nil
  | cons entry entries ih =>
    obtain ⟨hregistry, hheap, hformatters⟩ := ih (formatLogger formatter entry.2 w)
    refine ⟨hregistry, hheap, fun sink h => hformatters sink ?_⟩
    rcases h with hold | ⟨ptr, hptr, l, hl, hsink⟩
    · apply Or.inl
      show (if _ then formatter else w.formatters sink) = formatter
      rw [hold, ite_self]
    · rcases List.mem_cons.mp hptr with hfirst | hrest
      · apply Or.inl
        apply if_pos
        rw [← hfirst, hl]
        exact hsink
      · exact Or.inr ⟨ptr, hrest, l, hl, hsink⟩

/-- A setting of the registry for all its loggers. -/
theorem Agreed.setting {f : SharedLogger η → SharedLogger η} (hf : SharedLogger.Setting f)
    {g : Registry φ η → Registry φ η} (h : Agreed w) (hloggers : (g w.registry).loggers = w.registry.loggers)
    (hagrees : ∀ l, Agrees w.registry w.formatters l → Agrees (g w.registry) w.formatters (f l)) :
    Agreed { each (fun ptr => onLogger ptr f) w with registry := g (each (fun ptr => onLogger ptr f) w).registry } := by
  obtain ⟨hregistry, hformatters, hheap⟩ := foldl_onLogger hf w.registry.loggers.entries w
  intro name ptr l hget hl
  have hold : w.get name = some ptr := by
    have hnew : (g (each (fun ptr => onLogger ptr f) w).registry).loggers.lookup name = some ptr := hget
    unfold each at hnew
    rw [hregistry, hloggers] at hnew
    exact hnew
  have hmem : ptr ∈ w.registry.loggers.entries.map Sigma.snd := mem_ptrs hold
  have hmap : (w.heap ptr).map f = some l := by
    rw [← hl]
    exact ((hheap ptr).trans (if_pos hmem)).symm
  obtain ⟨l', hl', rfl⟩ := Option.map_eq_some_iff.mp hmap
  have hnew := hagrees l' (h name ptr l' hold hl')
  rw [← hregistry, ← hformatters] at hnew
  exact hnew

theorem Agreed.setFormatter {formatter : φ} (h : Agreed w) :
    Agreed { each (formatLogger formatter) w with
      registry := { (each (formatLogger formatter) w).registry with formatter } } := by
  obtain ⟨hregistry, hheap, hformatters⟩ := foldl_formatLogger formatter w.registry.loggers.entries w
  intro name ptr l hget hl
  have hold : w.get name = some ptr := by
    have hnew : (each (formatLogger formatter) w).registry.loggers.lookup name = some ptr := hget
    unfold each at hnew
    rw [hregistry] at hnew
    exact hnew
  have hsame : w.heap ptr = some l := by
    rw [← hheap]
    exact hl
  have hagrees := h name ptr l hold hsame
  rw [← hregistry] at hagrees
  refine ⟨hagrees.level, hagrees.flushLevel, hagrees.errHandler, fun sink hsink => ?_⟩
  exact hformatters sink (Or.inr ⟨ptr, mem_ptrs hold, l, hsame, hsink⟩)

/-- Nothing changes but that some loggers are no longer found. -/
theorem Agreed.fewer {r : Registry φ η} (h : Agreed w) (hlevel : r.level = w.registry.level)
    (hflush : r.flushLevel = w.registry.flushLevel) (herr : r.errHandler = w.registry.errHandler)
    (hformatter : r.formatter = w.registry.formatter)
    (hfewer : ∀ name ptr, r.loggers.lookup name = some ptr → ∃ name', w.get name' = some ptr) :
    Agreed { w with registry := r } := by
  intro name ptr l hget hl
  obtain ⟨name', hget'⟩ := hfewer name ptr hget
  have hagrees := h name' ptr l hget' hl
  exact ⟨hagrees.level.trans hlevel.symm, hagrees.flushLevel.trans hflush.symm,
    fun handler hhandler => hagrees.errHandler handler (herr.symm.trans hhandler),
    fun sink hsink => (hagrees.formatter sink hsink).trans hformatter.symm⟩

theorem agrees_configured (r : Registry φ η) {formatters : Ptr → φ} {l : SharedLogger η}
    (hformatters : ∀ sink ∈ l.sinks, formatters sink = r.formatter) : Agrees r formatters (configured r l) := by
  constructor
  · unfold configured
    rfl
  · unfold configured
    rfl
  · intro handler hhandler
    unfold configured
    rw [hhandler]
    rfl
  · intro sink hsink
    rw [(setting_configured r).sinks] at hsink
    exact hformatters sink hsink

/-- The logger that is configured agrees with the registry, and the others still do. -/
theorem configure_agrees (h : Agreed w) (ptr : Ptr) {p : Ptr} {l : SharedLogger η}
    (hp : p = ptr ∨ ∃ name, w.get name = some p) (hl : (configure ptr w).heap p = some l) :
    Agrees w.registry (configure ptr w).formatters l := by
  have hformatter (sink : Ptr) (hold : w.formatters sink = w.registry.formatter) :
      (configure ptr w).formatters sink = w.registry.formatter := by
    show (if _ then w.registry.formatter else w.formatters sink) = _
    rw [hold, ite_self]
  by_cases hsame : p = ptr
  · subst hsame
    have hmap : (w.heap p).map (configured w.registry) = some l := by
      rw [← hl]
      exact (Function.update_self (f := w.heap) p _).symm
    obtain ⟨l', hl', rfl⟩ := Option.map_eq_some_iff.mp hmap
    apply agrees_configured
    intro sink hsink
    apply if_pos
    rw [hl']
    exact hsink
  · obtain ⟨name, hget⟩ := hp.resolve_left hsame
    have hold : w.heap p = some l := by
      rw [← hl]
      exact (Function.update_of_ne hsame _ _).symm
    have hagrees := h name p l hget hold
    exact ⟨hagrees.level, hagrees.flushLevel, hagrees.errHandler,
      fun sink hsink => hformatter sink (hagrees.formatter sink hsink)⟩

theorem Agreed.initializeLogger (h : Agreed w) (ptr : Ptr) (name : Text) :
    Agreed (w.initializeLogger ptr name).1 := by
  have hold : Agreed (configure ptr w) :=
    fun name' p l hget hl => configure_agrees h ptr (Or.inr ⟨name', hget⟩) hl
  unfold LoggerWorld.initializeLogger LoggerWorld.register
  split
  · split
    · exact hold
    · intro name' p l hget hl
      have hp : p = ptr ∨ ∃ name, w.get name = some p := by
        by_cases hsame : name' = name
        · subst hsame
          exact Or.inl (Option.some.inj (hget.symm.trans (AList.lookup_insert w.registry.loggers)))
        · exact Or.inr ⟨name', (AList.lookup_insert_ne hsame).symm.trans hget⟩
      have hagrees := configure_agrees h ptr hp hl
      exact ⟨hagrees.level, hagrees.flushLevel, hagrees.errHandler, hagrees.formatter⟩
  · exact hold

theorem agreed_step (hsound : Sound w) (h : Agreed w) (hmanaged : Managed w e) (hstep : step w e = some w') :
    Agreed w' := by
  cases e with
  | create ptr name sinks =>
    obtain ⟨hfree, hnew⟩ := Option.ite_none_left_eq_some.mp hstep
    obtain rfl := Option.some.inj hnew
    intro name' p l hget hl
    have hne : p ≠ ptr := by
      rintro rfl
      apply hfree
      obtain ⟨l', hl', -⟩ := Option.map_eq_some_iff.mp (hsound.named hget)
      rw [hl']
      rfl
    exact h name' p l hget ((Function.update_of_ne hne _ _).symm.trans hl)
  | ownLevel ptr level => exact hmanaged.elim
  | ownFlushOn ptr level => exact hmanaged.elim
  | registerLogger ptr => exact hmanaged.elim
  | initializeLogger ptr =>
    obtain ⟨name, -, rfl⟩ := Option.map_eq_some_iff.mp hstep
    exact h.initializeLogger ptr name
  | setDefaultLogger new =>
    cases new with
    | none =>
      obtain rfl := Option.some.inj hstep
      exact h.fewer rfl rfl rfl rfl fun name ptr hget => ⟨name, lookup_withoutDefault hget⟩
    | some ptr =>
      obtain ⟨name, -, rfl⟩ := Option.map_eq_some_iff.mp hstep
      refine h.fewer rfl rfl rfl rfl ?_
      intro name' ptr' hget
      by_cases hsame : name' = name
      · subst hsame
        have hptr : some ptr = some ptr' := (AList.lookup_insert w.withoutDefault).symm.trans hget
        rw [← Option.some.inj hptr]
        exact hmanaged
      · exact ⟨name', lookup_withoutDefault ((AList.lookup_insert_ne hsame).symm.trans hget)⟩
  | setFormatter formatter =>
    obtain rfl := Option.some.inj hstep
    exact h.setFormatter
  | setLevel level =>
    obtain rfl := Option.some.inj hstep
    exact h.setting (SharedLogger.setting_level level) (g := fun r => { r with level }) rfl
      fun l hl => ⟨rfl, hl.flushLevel, hl.errHandler, hl.formatter⟩
  | flushOn level =>
    obtain rfl := Option.some.inj hstep
    exact h.setting (SharedLogger.setting_flushOn level) (g := fun r => { r with flushLevel := level }) rfl
      fun l hl => ⟨hl.level, rfl, hl.errHandler, hl.formatter⟩
  | setErrorHandler handler =>
    obtain rfl := Option.some.inj hstep
    exact h.setting (SharedLogger.setting_errorHandler handler) (g := fun r => { r with errHandler := handler }) rfl
      fun l hl => ⟨hl.level, hl.flushLevel, fun _ => id, hl.formatter⟩
  | setAutomaticRegistration automatic =>
    obtain rfl := Option.some.inj hstep
    exact h.fewer rfl rfl rfl rfl fun name ptr hget => ⟨name, hget⟩
  | drop name =>
    obtain rfl := Option.some.inj hstep
    refine h.fewer rfl rfl rfl rfl ?_
    intro name' ptr hget
    by_cases hsame : name' = name
    · rw [hsame, AList.lookup_erase] at hget
      cases hget
    · exact ⟨name', (AList.lookup_erase_ne hsame).symm.trans hget⟩
  | dropAll =>
    obtain rfl := Option.some.inj hstep
    refine h.fewer rfl rfl rfl rfl ?_
    intro name ptr hget
    cases hget

theorem agreed_new (formatter : φ) : Agreed (new (η := η) formatter) := by
  intro name ptr l hget hl
  have hptr := (sound_new formatter).named hget
  obtain ⟨-, hsome⟩ := Option.ite_none_right_eq_some.mp hl
  obtain rfl := Option.some.inj hsome
  refine ⟨rfl, rfl, ?_, fun sink hsink => rfl⟩
  intro handler hhandler
  cases hhandler

/-- As long as loggers come from the factories and are not changed directly, and the default logger is one that can
be found when it is set, every logger that can be found, and the default logger, has the level, the flush level and the error handler of the registry, and its sinks the formatter. -/
theorem settings_agree {formatter : φ} (h : Run step Managed (new formatter) es w) {ptr : Ptr}
    {l : SharedLogger η} (hptr : (∃ name, w.get name = some ptr) ∨ w.registry.defaultLogger = some ptr)
    (hl : w.heap ptr = some l) : Agrees w.registry w.formatters l := by
  have hboth : Sound w ∧ Agreed w := by
    refine h.invariant (I := fun w => Sound w ∧ Agreed w) ⟨sound_new formatter, agreed_new formatter⟩ ?_
    intro w e w' hw hmanaged hstep
    exact ⟨sound_step hw.1 hstep, agreed_step hw.1 hw.2 hmanaged hstep⟩
  rcases hptr with ⟨name, hget⟩ | hdefault
  · exact hboth.2 name ptr l hget hl
  · obtain ⟨name', -, hget⟩ := hboth.1.default hdefault
    exact hboth.2 name' ptr l hget hl

/-- Two loggers of one name, the first with a level of its own. -/
def twoLoggers : List (RegistryEvent Text Unit) :=
  [.create 1 "app".toList [1], .initializeLogger 1, .setLevel .debug, .create 2 "app".toList [2],
    .initializeLogger 2, .setFormatter "%v".toList]

theorem registry_sound_of_two : ∃ w, Run step AnyStep (new "%+".toList) (twoLoggers ++ [.setDefaultLogger (some 1)]) w ∧
    (∀ name ptr, w.get name = some ptr → w.name ptr = some name) ∧
      ∀ ptr, w.registry.defaultLogger = some ptr → ∃ name, w.name ptr = some name ∧ w.get name = some ptr := by
  have hrun : Run step AnyStep (new "%+".toList) (twoLoggers ++ [.setDefaultLogger (some 1)]) _ :=
    Run.of_replay rfl
  exact ⟨_, hrun, registry_sound hrun⟩

theorem settings_agree_of_two : ∃ w, Run step Managed (new "%+".toList) twoLoggers w ∧
    ∃ l, w.heap 1 = some l ∧ Agrees w.registry w.formatters l := by
  have hmanaged : ∀ e ∈ twoLoggers, ∀ w, Managed w e := by
    simp only [twoLoggers, List.forall_mem_cons]
    exact ⟨fun _ => trivial, fun _ => trivial, fun _ => trivial, fun _ => trivial, fun _ => trivial,
      fun _ => trivial, fun e he => absurd he List.not_mem_nil⟩
  have hrun : Run step Managed (new "%+".toList) twoLoggers _ := Run.of_replay_admits hmanaged rfl
  exact ⟨_, hrun, _, rfl, settings_agree hrun (Or.inl ⟨"app".toList, rfl⟩) rfl⟩

/-! ## Flushing all loggers -/

section Flush

variable {δ : Type} (code : SinkCode δ)

def flushAll (w : LoggerWorld φ η) (o : Outputs δ) : Outputs δ :=
  w.ptrs.foldl (fun o ptr =>
    match w.heap ptr with
    | some l => l.flush code o
    | none => o) o

/-- Whether a logger writes to a sink. -/
def holds (w : LoggerWorld φ η) (sink ptr : Ptr) : Bool := ((w.heap ptr).map fun l => decide (sink ∈ l.sinks)).getD false

variable {code}

theorem flush_at (l : SharedLogger η) (hnodup : l.sinks.Nodup) (sink : Ptr) (o : Outputs δ) :
    (l.flush code o).sinks sink = if sink ∈ l.sinks then (code.flush (o.sinks sink)).1 else o.sinks sink := by
  unfold Logger.flush
  split
  · rename_i hmem
    exact tryEach_at (l.ownAction code code.flush) hmem hnodup o
  · rename_i hmem
    exact tryEach_at_of_notMem (l.ownAction code code.flush) hmem o

theorem foldl_flush {w : LoggerWorld φ η} (hnodup : ∀ ptr l, w.heap ptr = some l → l.sinks.Nodup) (ptrs : List Ptr)
    (sink : Ptr) (o : Outputs δ) :
    (ptrs.foldl (fun o ptr =>
        match w.heap ptr with
        | some l => l.flush code o
        | none => o) o).sinks sink =
      (fun d => (code.flush d).1)^[ptrs.countP (w.holds sink)] (o.sinks sink) := by
  induction ptrs generalizing o with
  | nil => rfl
  | cons ptr ptrs ih =>
    rw [List.foldl_cons, ih, List.countP_cons, Function.iterate_add_apply]
    apply congrArg
    unfold holds
    cases hl : w.heap ptr with
    | none => rfl
    | some l =>
      dsimp only
      rw [flush_at l (hnodup ptr l hl)]
      by_cases hmem : sink ∈ l.sinks
      · simp [hmem]
      · simp [hmem]

/-- A sink is flushed once for each registered logger that writes to it, raise what the others may. -/
theorem flushAll_reaches {w : LoggerWorld φ η} (hnodup : ∀ ptr l, w.heap ptr = some l → l.sinks.Nodup) (sink : Ptr)
    (o : Outputs δ) :
    (w.flushAll code o).sinks sink =
      (fun d => (code.flush d).1)^[w.ptrs.countP (w.holds sink)] (o.sinks sink) :=
  foldl_flush hnodup w.ptrs sink o

/-- Each sink counts how often it is flushed, and raises an exception each time. -/
def countingFlushes : SinkCode Nat where
  level _ := .trace
  log _ d := (d, none)
  flush d := (d + 1, some "not flushed".toList)
  handleErr := Outputs.report
  keeps := Outputs.report_sinks

theorem flushAll_reaches_of_default :
    ((new (η := Unit) "%+".toList).flushAll countingFlushes ⟨fun _ => 0, []⟩).sinks 0 = 1 := by
  have hnodup : ∀ ptr l, (new (η := Unit) "%+".toList).heap ptr = some l → l.sinks.Nodup := by
    intro ptr l hl
    obtain ⟨-, hsome⟩ := Option.ite_none_right_eq_some.mp hl
    rw [← Option.some.inj hsome]
    exact List.nodup_singleton 0
  exact flushAll_reaches hnodup 0 ⟨fun _ => 0, []⟩

end Flush

end LoggerWorld

end RedisLuaLinux.Spdlog
