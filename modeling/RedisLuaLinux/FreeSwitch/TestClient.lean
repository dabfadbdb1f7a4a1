import RedisLuaLinux.FreeSwitch.Esl
import RedisLuaLinux.Library.Run

/-!
# The inbound client

`Inbond_test/testclient.c`: it subscribes to the registrations and sends a message to each phone
that registers. `cJSON_Parse` is a parameter; the looked-up members are computed.

* `greet_eq_none`, `greet_eq_some`: the bodies that make the client use a NULL pointer, and those for
  which it hands an address to `send_msg`.
* `clientStep_cases`: what one turn of its loop does.
* `runs_without_null`: the runs in which no NULL pointer is used.
-/

namespace RedisLuaLinux.FreeSwitch

open Library Library.CString

/-- What `cJSON_Parse` makes of a text. Numbers and the items of arrays are not read. -/
inductive Json
  | null
  | bool
  | number
  | array
  | string (text : CString)
  | object (child : List (CString × Json))

def Json.valuestring : Json → Option CString
  | .string text => some text
  | _ => none

/-- `cJSON_GetObjectItem`, case insensitive. -/
def getObjectItem : Option Json → CString → Option Json
  | some (.object child), name => (child.find? fun item => strcasecmp item.1 name = 0).map Prod.snd
  | _, _ => none

/-- The conversion `%s` of a string pointer. -/
def percentS (s : Option CString) : CString := s.getD (literal "(null)")

/-- The status that is returned, and the event that is sent; `created` says that
`esl_event_create_subclass` succeeds. -/
def sendMsg (created : Bool) (toBuf : CString) (externalFlag : Bool) : Int × Option OutEvent :=
  if created then
    (0, some {
      eventId := .eslEventCustom
      subclassName := literal "SMS::SEND_MESSAGE"
      headers := [(literal "from", literal "0000@172.17.244.156"), (literal "to", toBuf),
        (literal "dest_proto", literal "sip"), (literal "blocking", literal "true"),
        (literal "proto", literal "global")] ++
        if externalFlag then [(literal "sip_profile", literal "external")] else []
      body := literal "hello world" })
  else (-1, none)

/-- The branch of a CUSTOM event with this body: the address that is handed to `send_msg`, if any;
`none` where a NULL pointer is used. -/
def greet (parse : CString → Option Json) (body : CString) : Option (Option CString) :=
  let rootObj := parse body
  match getObjectItem rootObj (literal "Event-Subclass") with
  | none => some none
  | some tmpObj =>
    match tmpObj.valuestring with
    | none => none  -- strlen and strncmp
    | some subclass =>
      if strncmp subclass (literal "sofia::register") subclass.strlen = 0 then
        match getObjectItem rootObj (literal "contact") with
        | none => some none
        | some _ =>
          match getObjectItem rootObj (literal "user_name"), getObjectItem rootObj (literal "domain_name") with
          | some userName, some domain =>
            some (some (snprintf 64
              (((percentS userName.valuestring).append (literal "@")).append (percentS domain.valuestring))))
          | _, _ => none  -- user_name->valuestring, domain->valuestring
      else some none

/-- The branch of `ESL_SUCCESS`. -/
def handleEvent (parse : CString → Option Json) (lastEvent : Event) (lastIevent : Option Event) :
    Option (Option CString) :=
  match lastEvent.body with
  | none => some none
  | some body =>
    match lastIevent with
    | none => none  -- handle.last_ievent->event_id
    | some ievent => if ievent.eventId = .eslEventCustom then greet parse body else some none

/-- The loop runs, was left, or has used a NULL pointer. -/
inductive Phase
  | running
  | left
  | crashed

/-- The client: its calls on the handle, and the addresses it has handed to `send_msg`. -/
structure Client where
  phase : Phase
  calls : List Call
  handed : List CString

/-- One turn: what is received, and whether an event can be created then. -/
structure Turn where
  receipt : Receipt
  created : Bool

/-- `main` up to its loop. -/
def clientMain : Client where
  phase := .running
  calls := [.connect (literal "localhost") 8021 none (literal "ClueCon"),
    .sendRecv (literal "api status\n\n"),
    .events .eslEventTypeJson (literal "CUSTOM sofia::register sofia::unregister sofia::expire")]
  handed := []

/-- The client after a receive that hands this address to `send_msg`, or none. -/
def Client.greeted (c : Client) (created : Bool) (toBuf : Option CString) : Client :=
  { c with
    calls := c.calls ++ .recvTimed 10 ::
      (toBuf.bind fun toBuf => (sendMsg created toBuf false).2).toList.map Call.sendevent
    handed := c.handed ++ toBuf.toList }

/-- One turn of the loop; no turn follows when it was left or the program has crashed. -/
def clientStep (parse : CString → Option Json) (c : Client) (turn : Turn) : Option Client :=
  match c.phase with
  | .running =>
    match turn.receipt with
    | .eslBreak => some (c.greeted turn.created none)
    | .eslSuccess lastEvent lastIevent =>
      match handleEvent parse lastEvent lastIevent with
      | some toBuf => some (c.greeted turn.created toBuf)
      | none => some { c with phase := .crashed, calls := c.calls ++ [.recvTimed 10] }
    | _ => some { c with phase := .left, calls := c.calls ++ [.recvTimed 10, .disconnect] }
  | _ => none

/-! ## What a body leads to -/

/-- The buffer of the address, as `snprintf` fills it. -/
def addressBuf (userName domain : Json) : CString :=
  snprintf 64 (((percentS userName.valuestring).append (literal "@")).append (percentS domain.valuestring))

/-- Of this body an address is handed to `send_msg`: an initial part of sofia::register stands as the
Event-Subclass, and the members contact, user_name and domain_name are there. -/
structure Accepted (rootObj : Option Json) (subclass : CString) (contact userName domain : Json) : Prop where
  subclass_eq : (getObjectItem rootObj (literal "Event-Subclass")).bind Json.valuestring = some subclass
  part : subclass.bytes <+: (literal "sofia::register").bytes
  contact_eq : getObjectItem rootObj (literal "contact") = some contact
  userName_eq : getObjectItem rootObj (literal "user_name") = some userName
  domain_eq : getObjectItem rootObj (literal "domain_name") = some domain

/-- An Event-Subclass is a text, and with an initial part of sofia::register there and a contact,
both user_name and domain_name are there. -/
def SafeBody (rootObj : Option Json) : Prop :=
  ∀ tmpObj, getObjectItem rootObj (literal "Event-Subclass") = some tmpObj →
    ∃ subclass, tmpObj.valuestring = some subclass ∧
      (subclass.bytes <+: (literal "sofia::register").bytes →
        (getObjectItem rootObj (literal "contact")).isSome →
          (getObjectItem rootObj (literal "user_name")).isSome ∧
            (getObjectItem rootObj (literal "domain_name")).isSome)

variable {parse : CString → Option Json} {body toBuf : CString}

/-- What the client does with a body whose Event-Subclass is a text. -/
theorem greet_of_text {tmpObj : Json} {subclass : CString}
    (hitem : getObjectItem (parse body) (literal "Event-Subclass") = some tmpObj)
    (htext : tmpObj.valuestring = some subclass) :
    greet parse body =
      if subclass.bytes <+: (literal "sofia::register").bytes then
        match getObjectItem (parse body) (literal "contact") with
        | none => some none
        | some _ =>
          match getObjectItem (parse body) (literal "user_name"),
            getObjectItem (parse body) (literal "domain_name") with
          | some userName, some domain => some (some (addressBuf userName domain))
          | _, _ => none
      else some none := by
  unfold greet
  simp only [hitem, htext, strncmp_length]
  rfl

theorem Accepted.greet_eq {subclass : CString} {contact userName domain : Json}
    (h : Accepted (parse body) subclass contact userName domain) :
    greet parse body = some (some (addressBuf userName domain)) := by
  obtain ⟨tmpObj, hitem, htext⟩ := Option.bind_eq_some_iff.mp h.subclass_eq
  rw [greet_of_text hitem htext, if_pos h.part, h.contact_eq, h.userName_eq, h.domain_eq]

theorem Accepted.safe {rootObj : Option Json} {subclass : CString} {contact userName domain : Json}
    (h : Accepted rootObj subclass contact userName domain) : SafeBody rootObj := by
  intro tmpObj hitem
  have htext := h.subclass_eq
  rw [hitem] at htext
  refine ⟨subclass, htext, ?_⟩
  intro _ _
  rw [h.userName_eq, h.domain_eq]
  exact ⟨rfl, rfl⟩

/-- The three outcomes of a body: an address, a NULL pointer, or nothing. -/
theorem greet_cases (parse : CString → Option Json) (body : CString) :
    (∃ subclass contact userName domain, Accepted (parse body) subclass contact userName domain) ∨
      ¬ SafeBody (parse body) ∧ greet parse body = none ∨
      SafeBody (parse body) ∧ greet parse body = some none := by
  cases hitem : getObjectItem (parse body) (literal "Event-Subclass") with
  | none =>
    right
    right
    refine ⟨?_, by simp only [greet, hitem]⟩
    intro tmpObj h
    rw [hitem] at h
    cases h
  | some tmpObj =>
    cases htext : tmpObj.valuestring with
    | none =>
      right
      left
      refine ⟨?_, by simp only [greet, hitem, htext]⟩
      intro hsafe
      obtain ⟨subclass, h, -⟩ := hsafe tmpObj hitem
      rw [htext] at h
      cases h
    | some subclass =>
      -- what is left of SafeBody speaks of this item only
      have hsafe : SafeBody (parse body) ↔ (subclass.bytes <+: (literal "sofia::register").bytes →
          (getObjectItem (parse body) (literal "contact")).isSome →
            (getObjectItem (parse body) (literal "user_name")).isSome ∧
              (getObjectItem (parse body) (literal "domain_name")).isSome) := by
        constructor
        · intro h
          obtain ⟨subclass', htext', hmembers⟩ := h tmpObj hitem
          obtain rfl : subclass = subclass' := Option.some.inj (htext.symm.trans htext')
          exact hmembers
        · intro h tmpObj' hitem'
          obtain rfl : tmpObj = tmpObj' := Option.some.inj (hitem.symm.trans hitem')
          exact ⟨subclass, htext, h⟩
      rw [greet_of_text hitem htext, hsafe]
      by_cases hpart : subclass.bytes <+: (literal "sofia::register").bytes
      · cases hcontact : getObjectItem (parse body) (literal "contact") with
        | none => simp [hpart]
        | some contact =>
          cases huser : getObjectItem (parse body) (literal "user_name") with
          | none => simp [hpart]
          | some userName =>
            cases hdomain : getObjectItem (parse body) (literal "domain_name") with
            | none => simp [hpart]
            | some domain =>
              left
              refine ⟨subclass, contact, userName, domain, ?_, hpart, hcontact, huser, hdomain⟩
              rw [hitem, Option.bind_some, htext]
      · simp [hpart]

theorem greet_eq_none : greet parse body = none ↔ ¬ SafeBody (parse body) := by
  rcases greet_cases parse body with ⟨subclass, contact, userName, domain, h⟩ | ⟨hbad, h⟩ | ⟨hsafe, h⟩
  · rw [h.greet_eq]
    exact iff_of_false nofun (not_not_intro h.safe)
  · exact iff_of_true h hbad
  · rw [h]
    exact iff_of_false nofun (not_not_intro hsafe)

theorem greet_eq_some : greet parse body = some (some toBuf) ↔
    ∃ subclass contact userName domain,
      Accepted (parse body) subclass contact userName domain ∧ toBuf = addressBuf userName domain := by
  constructor
  · intro hgreet
    rcases greet_cases parse body with ⟨subclass, contact, userName, domain, h⟩ | ⟨-, h⟩ | ⟨-, h⟩
    · rw [h.greet_eq] at hgreet
      exact ⟨subclass, contact, userName, domain, h, (Option.some.inj (Option.some.inj hgreet)).symm⟩
    · rw [h] at hgreet
      cases hgreet
    · rw [h] at hgreet
      cases hgreet
  · rintro ⟨subclass, contact, userName, domain, h, rfl⟩
    exact h.greet_eq

/-! ## What a turn leads to -/

/-- The address that the client hands to `send_msg` after a receive. -/
def handedFor (parse : CString → Option Json) : Receipt → Option CString
  | .eslSuccess lastEvent lastIevent => (handleEvent parse lastEvent lastIevent).join
  | _ => none

/-- A receive after which no NULL pointer is used: an event with a body has an inner event, and the
body of a CUSTOM event is a safe one. -/
def SafeReceipt (parse : CString → Option Json) (receipt : Receipt) : Prop :=
  ∀ lastEvent lastIevent body, receipt = .eslSuccess lastEvent lastIevent → lastEvent.body = some body →
    ∃ ievent, lastIevent = some ievent ∧ (ievent.eventId = .eslEventCustom → SafeBody (parse body))

theorem safeReceipt_success {lastEvent : Event} {lastIevent : Option Event} :
    SafeReceipt parse (.eslSuccess lastEvent lastIevent) ↔ ∀ body, lastEvent.body = some body →
      ∃ ievent, lastIevent = some ievent ∧ (ievent.eventId = .eslEventCustom → SafeBody (parse body)) := by
  constructor
  · intro h body hbody
    exact h lastEvent lastIevent body rfl hbody
  · intro h event ievent body heq hbody
    obtain ⟨rfl, rfl⟩ := Receipt.eslSuccess.inj heq
    exact h body hbody

theorem handleEvent_eq_none {lastEvent : Event} {lastIevent : Option Event} :
    handleEvent parse lastEvent lastIevent = none ↔ ¬ SafeReceipt parse (.eslSuccess lastEvent lastIevent) := by
  rw [safeReceipt_success]
  unfold handleEvent
  cases hbody : lastEvent.body with
  | none => exact iff_of_false nofun (not_not_intro nofun)
  | some body =>
    cases lastIevent with
    | none =>
      refine iff_of_true rfl ?_
      intro h
      obtain ⟨ievent, hnone, -⟩ := h body rfl
      cases hnone
    | some ievent =>
      by_cases hcustom : ievent.eventId = .eslEventCustom
      · simp only [hcustom, if_true, greet_eq_none, Option.some.injEq, forall_eq', exists_eq_left',
          forall_const]
      · simp only [if_neg hcustom, reduceCtorEq, false_iff, not_not]
        intro body' _
        exact ⟨ievent, rfl, fun h => absurd h hcustom⟩

/-- What one turn does. -/
theorem clientStep_cases {c c' : Client} {turn : Turn} (h : clientStep parse c turn = some c') :
    c.phase = .running ∧
      c'.handed = c.handed ++ (handedFor parse turn.receipt).toList ∧
      (c'.phase = .crashed ↔ ¬ SafeReceipt parse turn.receipt) := by
  have hother : ∀ receipt, (∀ lastEvent lastIevent, receipt ≠ .eslSuccess lastEvent lastIevent) →
      SafeReceipt parse receipt := by
    intro receipt hne lastEvent lastIevent body heq
    exact absurd heq (hne lastEvent lastIevent)
  obtain ⟨receipt, created⟩ := turn
  cases hphase : c.phase with
  | running =>
    simp only [clientStep, hphase] at h
    refine ⟨rfl, ?_⟩
    cases receipt with
    | eslSuccess lastEvent lastIevent =>
      rw [← handleEvent_eq_none]
      cases hevent : handleEvent parse lastEvent lastIevent with
      | none =>
        simp only [hevent, Option.some.injEq] at h
        subst h
        simp [handedFor, hevent]
      | some toBuf =>
        simp only [hevent, Option.some.injEq] at h
        subst h
        simp [handedFor, hevent, Client.greeted, hphase]
    | _ =>
      cases h
      simp [handedFor, Client.greeted, hphase, hother]
  | left =>
    simp only [clientStep, hphase] at h
    cases h
  | crashed =>
    simp only [clientStep, hphase] at h
    cases h

/-- A client that runs takes every turn. -/
theorem clientStep_running {c : Client} (h : c.phase = .running) (turn : Turn) :
    ∃ c', clientStep parse c turn = some c' := by
  obtain ⟨receipt, created⟩ := turn
  cases receipt with
  | eslSuccess lastEvent lastIevent =>
    cases hevent : handleEvent parse lastEvent lastIevent <;> simp only [clientStep, h, hevent]
    · exact ⟨_, rfl⟩
    · exact ⟨_, rfl⟩
  | _ => exact ⟨_, by rw [clientStep, h]⟩

/-! ## Runs without a NULL pointer -/

/-- For every run of the client, whatever `cJSON_Parse` makes of the bodies: no NULL pointer was
dereferenced or given to `strlen` or `strncmp` if and only if each receive meets `SafeReceipt`. -/
theorem runs_without_null {turns : List Turn} {c : Client}
    (h : Run (clientStep parse) AnyStep clientMain turns c) :
    c.phase ≠ .crashed ↔ ∀ turn ∈ turns, SafeReceipt parse turn.receipt := by
  induction h with
  | nil => exact iff_of_true nofun nofun
  | @snoc turns c c' turn _ _ hstep ih =>
    obtain ⟨hrunning, -, hcrash⟩ := clientStep_cases hstep
    -- the client still ran before the last turn, so all earlier ones were safe
    have hbefore : ∀ turn ∈ turns, SafeReceipt parse turn.receipt := by
      apply ih.mp
      rw [hrunning]
      nofun
    rw [Ne, hcrash, not_not]
    constructor
    · intro hlast turn' hturn
      rcases List.mem_append.mp hturn with hmem | hmem
      · exact hbefore turn' hmem
      · rw [List.mem_singleton.mp hmem]
        exact hlast
    · intro hall
      exact hall turn (List.mem_append_right turns (List.mem_singleton_self turn))

/-- The run of one turn. -/
theorem run_singleton (parse : CString → Option Json) (turn : Turn) :
    ∃ c, Run (clientStep parse) AnyStep clientMain [turn] c ∧
      (c.phase = .crashed ↔ ¬ SafeReceipt parse turn.receipt) := by
  obtain ⟨c, hstep⟩ : ∃ c, clientStep parse clientMain turn = some c := clientStep_running rfl turn
  exact ⟨c, .snoc .nil trivial hstep, (clientStep_cases hstep).2.2⟩

/-! ## Registrations -/

/-- The JSON text of a registration. -/
def registrationBody (subclass userName domain : String) : CString :=
  literal ("\x7b\"Event-Subclass\":\"" ++ subclass ++ "\",\"contact\":\"sip:1000@10.0.0.7\",\"user_name\":\"" ++
    userName ++ "\",\"domain_name\":\"" ++ domain ++ "\"\x7d")

/-- `cJSON_Parse`, on the text of a registration. -/
def registrationParse (subclass userName domain : String) (text : CString) : Option Json :=
  if text = registrationBody subclass userName domain then
    some (.object [(literal "Event-Subclass", .string (literal subclass)),
      (literal "contact", .string (literal "sip:1000@10.0.0.7")),
      (literal "user_name", .string (literal userName)), (literal "domain_name", .string (literal domain))])
  else none

def jsonHeader (name : CString) : Option CString :=
  if strcasecmp name (literal "content-type") = 0 then some (literal "text/event-json") else none

/-- A received event with this body and this inner event. -/
def receivedJson (body : CString) (lastIevent : Option Event) : Turn where
  receipt := .eslSuccess ⟨.other 1, jsonHeader, some body⟩ lastIevent
  created := true

def customEvent : Event := ⟨.eslEventCustom, fun _ => none, none⟩

def registrationTurn (subclass userName domain : String) : Turn :=
  receivedJson (registrationBody subclass userName domain) (some customEvent)

/-- The registration of 1000 at 172.17.244.156. -/
theorem runs_without_null_example :
    ∃ c, Run (clientStep (registrationParse "sofia::register" "1000" "172.17.244.156")) AnyStep clientMain
      [registrationTurn "sofia::register" "1000" "172.17.244.156"] c ∧ c.phase ≠ .crashed := by
  obtain ⟨c, hrun, -⟩ := run_singleton (registrationParse "sofia::register" "1000" "172.17.244.156")
    (registrationTurn "sofia::register" "1000" "172.17.244.156")
  refine ⟨c, hrun, (runs_without_null hrun).mpr ?_⟩
  intro turn hturn
  rw [List.mem_singleton.mp hturn]
  by_contra hbad
  have hsome : (handleEvent (registrationParse "sofia::register" "1000" "172.17.244.156")
      ⟨.other 1, jsonHeader, some (registrationBody "sofia::register" "1000" "172.17.244.156")⟩
      (some customEvent)).isSome := by
    decide +kernel
  rw [handleEvent_eq_none.mpr hbad] at hsome
  cases hsome

/-- `cJSON_Parse`, on a registration without a user_name. -/
def namelessParse (_ : CString) : Option Json :=
  some (.object [(literal "Event-Subclass", .string (literal "sofia::register")),
    (literal "contact", .string (literal "sip:1000@10.0.0.7")),
    (literal "domain_name", .string (literal "172.17.244.156"))])

/-- A body that is no JSON and has no inner event, and a registration without a user_name. -/
theorem runs_without_null_fails :
    (∃ c, Run (clientStep fun _ => none) AnyStep clientMain
      [receivedJson (literal "Disconnected, goodbye.") none] c ∧ c.phase = .crashed) ∧
    ∃ c, Run (clientStep namelessParse) AnyStep clientMain
      [receivedJson (literal ("\x7b\"Event-Subclass\":\"sofia::register\",\"contact\":\"sip:1000@10.0.0.7\"," ++
        "\"domain_name\":\"172.17.244.156\"\x7d")) (some customEvent)] c ∧ c.phase = .crashed := by
  constructor
  · obtain ⟨c, hrun, hcrash⟩ := run_singleton (fun _ => none) (receivedJson (literal "Disconnected, goodbye.") none)
    refine ⟨c, hrun, hcrash.mpr ?_⟩
    apply handleEvent_eq_none.mp
    rfl
  · obtain ⟨c, hrun, hcrash⟩ := run_singleton namelessParse
      (receivedJson (literal ("\x7b\"Event-Subclass\":\"sofia::register\",\"contact\":\"sip:1000@10.0.0.7\"," ++
        "\"domain_name\":\"172.17.244.156\"\x7d")) (some customEvent))
    refine ⟨c, hrun, hcrash.mpr ?_⟩
    apply handleEvent_eq_none.mp
    decide +kernel

end RedisLuaLinux.FreeSwitch
