import RedisLuaLinux.FreeSwitch.TestClient

/-!
# The messages of the inbound client

Each phone that registers is to get one message, to its whole address. The client compares the
Event-Subclass for its own length only, and it keeps 63 bytes of an address.

* `handed_run`: what a run hands to `send_msg`.
* `filterMap_eq_iff`: two selections of a list are equal.
* `greetings_exact`: a run hands over the expected addresses if and only if each event it received
  meets `GreetedRight`.
-/

namespace RedisLuaLinux.FreeSwitch

open Library Library.CString

/-- The text of a member. -/
def textAt (rootObj : Option Json) (name : String) : Option CString :=
  (getObjectItem rootObj (literal name)).bind Json.valuestring

def address (userName domain : CString) : CString := (userName.append (literal "@")).append domain

/-- The address that is to be greeted: that of a CUSTOM event whose JSON body has the Event-Subclass
sofia::register, a contact, a user_name and a domain_name. -/
def registered (parse : CString → Option Json) : Receipt → Option CString
  | .eslSuccess lastEvent (some ievent) =>
    match lastEvent.body with
    | none => none
    | some body =>
      if ievent.eventId = .eslEventCustom ∧
          textAt (parse body) "Event-Subclass" = some (literal "sofia::register") then
        match textAt (parse body) "contact", textAt (parse body) "user_name",
          textAt (parse body) "domain_name" with
        | some _, some userName, some domain => some (address userName domain)
        | _, _, _ => none
      else none
  | _ => none

/-- For a CUSTOM event whose body the client accepts: the Event-Subclass is the whole
sofia::register, contact, user_name and domain_name are texts, and the address has less than 64
bytes. -/
def GreetedRight (parse : CString → Option Json) (receipt : Receipt) : Prop :=
  ∀ lastEvent ievent body subclass contact userName domain,
    receipt = .eslSuccess lastEvent (some ievent) → ievent.eventId = .eslEventCustom →
      lastEvent.body = some body → Accepted (parse body) subclass contact userName domain →
        subclass = literal "sofia::register" ∧ contact.valuestring.isSome ∧
          ∃ user host, userName.valuestring = some user ∧ domain.valuestring = some host ∧
            user.strlen + 1 + host.strlen < 64

variable {parse : CString → Option Json} {receipt : Receipt} {toBuf : CString}

/-- The events that are to be greeted. -/
theorem registered_cases (h : registered parse receipt = some toBuf) :
    ∃ lastEvent ievent body contact user host, receipt = .eslSuccess lastEvent (some ievent) ∧
      ievent.eventId = .eslEventCustom ∧ lastEvent.body = some body ∧
      textAt (parse body) "Event-Subclass" = some (literal "sofia::register") ∧
      textAt (parse body) "contact" = some contact ∧ textAt (parse body) "user_name" = some user ∧
      textAt (parse body) "domain_name" = some host ∧ toBuf = address user host := by
  unfold registered at h
  split at h
  · rename_i lastEvent ievent
    split at h
    · cases h
    · rename_i body hbody
      split at h
      · rename_i hsubclass
        split at h
        · rename_i contact user host hcontact huser hhost
          cases h
          exact ⟨lastEvent, ievent, body, contact, user, host, rfl, hsubclass.1, hbody, hsubclass.2,
            hcontact, huser, hhost, rfl⟩
        · cases h
      · cases h
  · cases h

/-- The events of which the client hands an address to `send_msg`. -/
theorem handedFor_cases (h : handedFor parse receipt = some toBuf) :
    ∃ lastEvent ievent body subclass contact userName domain,
      receipt = .eslSuccess lastEvent (some ievent) ∧ ievent.eventId = .eslEventCustom ∧
      lastEvent.body = some body ∧ Accepted (parse body) subclass contact userName domain ∧
      toBuf = addressBuf userName domain := by
  cases receipt with
  | eslSuccess lastEvent lastIevent =>
    have hevent : handleEvent parse lastEvent lastIevent = some (some toBuf) := Option.join_eq_some_iff.mp h
    unfold handleEvent at hevent
    split at hevent
    · cases hevent
    · rename_i body hbody
      split at hevent
      · cases hevent
      · rename_i ievent
        split at hevent
        · rename_i hcustom
          obtain ⟨subclass, contact, userName, domain, haccepted, hbuf⟩ := greet_eq_some.mp hevent
          exact ⟨lastEvent, ievent, body, subclass, contact, userName, domain, rfl, hcustom, hbody,
            haccepted, hbuf⟩
        · cases hevent
  | _ => cases h

/-- An accepted body of a CUSTOM event. -/
theorem handedFor_accepted {lastEvent ievent : Event} {body subclass : CString}
    {contact userName domain : Json} (hcustom : ievent.eventId = .eslEventCustom)
    (hbody : lastEvent.body = some body) (h : Accepted (parse body) subclass contact userName domain) :
    handedFor parse (.eslSuccess lastEvent (some ievent)) = some (addressBuf userName domain) := by
  simp only [handedFor, handleEvent, hbody, if_pos hcustom, h.greet_eq, Option.join_some]

theorem registered_accepted {lastEvent ievent : Event} {body : CString} {contact userName domain : Json}
    (hcustom : ievent.eventId = .eslEventCustom) (hbody : lastEvent.body = some body)
    (h : Accepted (parse body) (literal "sofia::register") contact userName domain)
    (hcontact : contact.valuestring.isSome) {user host : CString}
    (huser : userName.valuestring = some user) (hhost : domain.valuestring = some host) :
    registered parse (.eslSuccess lastEvent (some ievent)) = some (address user host) := by
  obtain ⟨text, htext⟩ := Option.isSome_iff_exists.mp hcontact
  simp only [registered, hbody, textAt, if_pos (And.intro hcustom h.subclass_eq), h.contact_eq,
    h.userName_eq, h.domain_eq, Option.bind_some, htext, huser, hhost]

/-- An event that is to be greeted passes the tests of the client. -/
theorem registered_cases_accepted (h : registered parse receipt = some toBuf) :
    ∃ lastEvent ievent body contact userName domain user host,
      receipt = .eslSuccess lastEvent (some ievent) ∧ ievent.eventId = .eslEventCustom ∧
      lastEvent.body = some body ∧
      Accepted (parse body) (literal "sofia::register") contact userName domain ∧
      contact.valuestring.isSome ∧ userName.valuestring = some user ∧ domain.valuestring = some host ∧
      toBuf = address user host := by
  obtain ⟨lastEvent, ievent, body, text, user, host, hreceipt, hcustom, hbody, hsubclass, hcontact, huser,
    hhost, hbuf⟩ := registered_cases h
  obtain ⟨contact, hitem, htext⟩ := Option.bind_eq_some_iff.mp hcontact
  obtain ⟨userName, hitem', htext'⟩ := Option.bind_eq_some_iff.mp huser
  obtain ⟨domain, hitem'', htext''⟩ := Option.bind_eq_some_iff.mp hhost
  refine ⟨lastEvent, ievent, body, contact, userName, domain, user, host, hreceipt, hcustom, hbody,
    ⟨hsubclass, List.prefix_refl _, hitem, hitem', hitem''⟩, ?_, htext', htext'', hbuf⟩
  rw [htext]
  rfl

theorem Accepted.unique {rootObj : Option Json} {subclass subclass' : CString}
    {contact contact' userName userName' domain domain' : Json}
    (h : Accepted rootObj subclass contact userName domain)
    (h' : Accepted rootObj subclass' contact' userName' domain') :
    subclass = subclass' ∧ contact = contact' ∧ userName = userName' ∧ domain = domain' :=
  ⟨Option.some.inj (h.subclass_eq.symm.trans h'.subclass_eq),
    Option.some.inj (h.contact_eq.symm.trans h'.contact_eq),
    Option.some.inj (h.userName_eq.symm.trans h'.userName_eq),
    Option.some.inj (h.domain_eq.symm.trans h'.domain_eq)⟩

/-- The buffer holds the whole address if and only if it has less than 64 bytes. -/
theorem addressBuf_eq_iff {userName domain : Json} {user host : CString}
    (huser : userName.valuestring = some user) (hhost : domain.valuestring = some host) :
    addressBuf userName domain = address user host ↔ user.strlen + 1 + host.strlen < 64 := by
  have hat : (literal "@").strlen = 1 := by decide +kernel
  have hlength : (address user host).strlen = user.strlen + 1 + host.strlen := by
    rw [address, strlen_append, strlen_append, hat]
  rw [← hlength, ← snprintf_eq_iff (by omega), addressBuf, huser, hhost]
  rfl

theorem handedFor_eq_iff : handedFor parse receipt = registered parse receipt ↔ GreetedRight parse receipt := by
  constructor
  · intro hsame lastEvent ievent body subclass contact userName domain hreceipt hcustom hbody h
    subst hreceipt
    rw [handedFor_accepted hcustom hbody h] at hsame
    obtain ⟨lastEvent', ievent', body', contact', userName', domain', user, host, hreceipt, -, hbody', h',
      hcontact, huser, hhost, hbuf⟩ := registered_cases_accepted hsame.symm
    obtain ⟨rfl, hinner⟩ := Receipt.eslSuccess.inj hreceipt
    obtain rfl : body = body' := Option.some.inj (hbody.symm.trans hbody')
    obtain ⟨hsubclass, rfl, rfl, rfl⟩ := h.unique h'
    exact ⟨hsubclass, hcontact, user, host, huser, hhost, (addressBuf_eq_iff huser hhost).mp hbuf⟩
  · intro hright
    cases hhanded : handedFor parse receipt with
    | some toBuf =>
      obtain ⟨lastEvent, ievent, body, subclass, contact, userName, domain, rfl, hcustom, hbody, h, rfl⟩ :=
        handedFor_cases hhanded
      obtain ⟨rfl, hcontact, user, host, huser, hhost, hroom⟩ :=
        hright lastEvent ievent body subclass contact userName domain rfl hcustom hbody h
      rw [registered_accepted hcustom hbody h hcontact huser hhost, (addressBuf_eq_iff huser hhost).mpr hroom]
    | none =>
      cases hregistered : registered parse receipt with
      | none => rfl
      | some toBuf =>
        obtain ⟨lastEvent, ievent, body, contact, userName, domain, user, host, rfl, hcustom, hbody, h, -⟩ :=
          registered_cases_accepted hregistered
        rw [handedFor_accepted hcustom hbody h] at hhanded
        cases hhanded

theorem handedFor_isSome (h : (registered parse receipt).isSome) : (handedFor parse receipt).isSome := by
  obtain ⟨toBuf, hregistered⟩ := Option.isSome_iff_exists.mp h
  obtain ⟨lastEvent, ievent, body, contact, userName, domain, user, host, rfl, hcustom, hbody, h, -⟩ :=
    registered_cases_accepted hregistered
  rw [handedFor_accepted hcustom hbody h]
  rfl

/-! ## Whole runs -/

section Selections

variable {α β : Type} {f g : α → Option β} {l : List α}

theorem length_filterMap_le (h : ∀ x ∈ l, (g x).isSome → (f x).isSome) :
    (l.filterMap g).length ≤ (l.filterMap f).length := by
  induction l with
  | nil => exact Nat.le_refl 0
  | cons x l ih =>
    have hrest := ih fun y hy => h y (List.mem_cons_of_mem x hy)
    have hx := h x List.mem_cons_self
    cases hf : f x with
    | none =>
      cases hg : g x with
      | none => rwa [List.filterMap_cons_none hf, List.filterMap_cons_none hg]
      | some b =>
        rw [hf, hg] at hx
        cases hx rfl
    | some a =>
      rw [List.filterMap_cons_some hf, List.length_cons]
      cases hg : g x with
      | none =>
        rw [List.filterMap_cons_none hg]
        omega
      | some b =>
        rw [List.filterMap_cons_some hg, List.length_cons]
        omega

/-- Where `f` selects all that `g` selects, the selections are equal if and only if `f` and `g` are
equal on the list. -/
theorem filterMap_eq_iff (h : ∀ x ∈ l, (g x).isSome → (f x).isSome) :
    l.filterMap f = l.filterMap g ↔ ∀ x ∈ l, f x = g x := by
  constructor
  · intro hsame
    induction l with
    | nil => exact nofun
    | cons x l ih =>
      have hall : ∀ y ∈ l, (g y).isSome → (f y).isSome := fun y hy => h y (List.mem_cons_of_mem x hy)
      have hx := h x List.mem_cons_self
      have hle := length_filterMap_le hall
      have hboth : f x = g x ∧ l.filterMap f = l.filterMap g := by
        cases hf : f x with
        | none =>
          cases hg : g x with
          | none =>
            rw [List.filterMap_cons_none hf, List.filterMap_cons_none hg] at hsame
            exact ⟨rfl, hsame⟩
          | some b =>
            rw [hf, hg] at hx
            cases hx rfl
        | some a =>
          cases hg : g x with
          | none =>
            rw [List.filterMap_cons_some hf, List.filterMap_cons_none hg] at hsame
            have hlength := congrArg List.length hsame
            rw [List.length_cons] at hlength
            omega
          | some b =>
            rw [List.filterMap_cons_some hf, List.filterMap_cons_some hg, List.cons.injEq] at hsame
            exact ⟨congrArg some hsame.1, hsame.2⟩
      intro y hy
      rcases List.mem_cons.mp hy with rfl | hmem
      · exact hboth.1
      · exact ih hall hboth.2 y hmem
  · exact List.filterMap_congr

end Selections

/-- What a run has handed to `send_msg`. -/
theorem handed_run {turns : List Turn} {c : Client} (h : Run (clientStep parse) AnyStep clientMain turns c) :
    c.handed = turns.filterMap fun turn => handedFor parse turn.receipt := by
  induction h with
  | nil => rfl
  | @snoc turns c c' turn _ _ hstep ih =>
    rw [(clientStep_cases hstep).2.1, ih, List.filterMap_append]
    rfl

/-- For every run of the client, whatever `cJSON_Parse` makes of the bodies: the addresses handed to
`send_msg` are those of the registrations received, in order and in full, if and only if each
received event meets `GreetedRight`. -/
theorem greetings_exact {turns : List Turn} {c : Client}
    (h : Run (clientStep parse) AnyStep clientMain turns c) :
    c.handed = (turns.filterMap fun turn => registered parse turn.receipt) ↔
      ∀ turn ∈ turns, GreetedRight parse turn.receipt := by
  rw [handed_run h, filterMap_eq_iff fun turn _ => handedFor_isSome]
  constructor
  · intro hsame turn hturn
    exact handedFor_eq_iff.mp (hsame turn hturn)
  · intro hright turn hturn
    exact handedFor_eq_iff.mpr (hright turn hturn)

/-- The phone 1000 at 172.17.244.156. -/
theorem greetings_exact_example :
    ∃ c, Run (clientStep (registrationParse "sofia::register" "1000" "172.17.244.156")) AnyStep clientMain
      [registrationTurn "sofia::register" "1000" "172.17.244.156"] c ∧
      c.handed = [literal "1000@172.17.244.156"] ∧
      ∀ turn ∈ [registrationTurn "sofia::register" "1000" "172.17.244.156"],
        GreetedRight (registrationParse "sofia::register" "1000" "172.17.244.156") turn.receipt := by
  obtain ⟨c, hrun, -⟩ := run_singleton (registrationParse "sofia::register" "1000" "172.17.244.156")
    (registrationTurn "sofia::register" "1000" "172.17.244.156")
  have hhanded : c.handed = [literal "1000@172.17.244.156"] := by
    rw [handed_run hrun]
    decide +kernel
  refine ⟨c, hrun, hhanded, (greetings_exact hrun).mp ?_⟩
  rw [hhanded]
  decide +kernel

/-- A user name of 60 bytes. -/
def longName : String := "012345678901234567890123456789012345678901234567890123456789"

/-- The address of the long name is cut to 63 bytes, and an Event-Subclass "sofia" is greeted. -/
theorem greetings_exact_fails :
    (∃ c turns, turns = [registrationTurn "sofia::register" longName "172.17.244.156"] ∧
      Run (clientStep (registrationParse "sofia::register" longName "172.17.244.156")) AnyStep clientMain turns c ∧
      c.handed ≠ turns.filterMap fun turn =>
        registered (registrationParse "sofia::register" longName "172.17.244.156") turn.receipt) ∧
    ∃ c turns, turns = [registrationTurn "sofia" "1000" "172.17.244.156"] ∧
      Run (clientStep (registrationParse "sofia" "1000" "172.17.244.156")) AnyStep clientMain turns c ∧
      c.handed ≠ turns.filterMap fun turn =>
        registered (registrationParse "sofia" "1000" "172.17.244.156") turn.receipt := by
  constructor
  · obtain ⟨c, hrun, -⟩ := run_singleton (registrationParse "sofia::register" longName "172.17.244.156")
      (registrationTurn "sofia::register" longName "172.17.244.156")
    refine ⟨c, _, rfl, hrun, ?_⟩
    rw [handed_run hrun]
    decide +kernel
  · obtain ⟨c, hrun, -⟩ := run_singleton (registrationParse "sofia" "1000" "172.17.244.156")
      (registrationTurn "sofia" "1000" "172.17.244.156")
    refine ⟨c, _, rfl, hrun, ?_⟩
    rw [handed_run hrun]
    decide +kernel

end RedisLuaLinux.FreeSwitch
