import WslPlus.Lib.Transition

/-!
# The sessions of the service

The service keeps the sessions of all accounts in one list and finds them by their names. The name
of a default session is made of a word for the elevation and the user name of the account. Every
call has the lock of the list to its end.
-/

namespace WslPlus.Wslc

open List

namespace Sessions

abbrev WString := List UInt16

def wide (s : List Char) : WString := s.map fun c => c.toNat.toUInt16

def defaultSessionName : WString := wide ['w', 's', 'l', 'c', '-', 'c', 'l', 'i']

def defaultAdminSessionName : WString := defaultSessionName ++ wide ['-', 'a', 'd', 'm', 'i', 'n']

structure Token (σ : Type) where
  sid : σ
  elevated : Bool
deriving DecidableEq

inductive Error where
  | invalidSessionName
  | invalidArg
  | sessionReserved
  | alreadyExists
  | accessDenied
  | elevationRequired
  | sessionNotFound
  | creationFailed
deriving DecidableEq

/-- The settings that `CreateSession` checks. -/
structure Settings where
  displayName : Option WString
  storagePath : Option WString
  featureFlags : BitVec 32 := 0
  storageFlags : BitVec 32 := 0

def sessionFlagsPersistent : BitVec 32 := 1
def sessionFlagsOpenExisting : BitVec 32 := 2
def sessionFlagsValid : BitVec 32 := sessionFlagsPersistent ||| sessionFlagsOpenExisting
def featureFlagsValid : BitVec 32 := 63
def storageFlagsNoCreate : BitVec 32 := 1
def storageFlagsValid : BitVec 32 := 3

def displayNameSize : Nat := 256

structure SessionEntry (σ : Type) where
  sessionId : UInt32
  displayName : WString
  owner : Token σ
deriving DecidableEq

structure Manager (σ : Type) where
  sessions : List (SessionEntry σ) := []
  persistentSessions : List UInt32 := []
  nextSessionId : UInt32 := 1

/-- What the creation of a session comes to outside of the manager. -/
inductive Creation where
  | failedEarly
  | failed
  | rejected
  | succeeded

/-- What a call gives its caller. -/
inductive Outcome (σ : Type) where
  | opened (session : SessionEntry σ)
  | created (session : SessionEntry σ)
  | refused (error : Error)
deriving DecidableEq

section Manager

variable {σ ρ : Type}

def tolower (c : UInt16) : UInt16 := if 65 ≤ c ∧ c ≤ 90 then c + 32 else c

/-- `IsEqual` without regard to case. -/
def isEqualNoCase (s s' : WString) : Bool := s.length == s'.length && s.map tolower == s'.map tolower

/-- `LookupAccountSidW` gives the user name. -/
def resolveDefaultSessionName (userName : σ → WString) (token : Token σ) : WString :=
  (if token.elevated then defaultAdminSessionName else defaultSessionName) ++ wide ['-'] ++ userName token.sid

def isReservedSessionName (name : WString) : Bool :=
  if name.length < defaultSessionName.length then false
  else if !isEqualNoCase (name.take defaultSessionName.length) defaultSessionName then false
  else name.length == defaultSessionName.length || name[defaultSessionName.length]? == (wide ['-'])[0]?

variable [DecidableEq σ]

def checkTokenAccess (entry : SessionEntry σ) (token : Token σ) : Except Error Unit :=
  if token.elevated then .ok ()
  else if entry.owner.sid ≠ token.sid then .error .accessDenied
  else if entry.owner.elevated then .error .elevationRequired
  else .ok ()

omit [DecidableEq σ] in
/-- Calls the routine for the sessions that can still be opened, until it has a result, and drops
the others. -/
def forEachSession (gone : UInt32 → Bool) (routine : SessionEntry σ → Option ρ) (m : Manager σ) :
    Option ρ × Manager σ :=
  let kept := m.sessions.filter fun entry => !gone entry.sessionId
  (kept.findSome? routine,
    { m with
      sessions := kept
      persistentSessions := m.persistentSessions.filter fun id =>
        !m.sessions.any fun entry => entry.sessionId == id && gone id })

def checkSettings (settings : Settings) (flags : BitVec 32) : Except Error WString :=
  match settings.displayName with
  | none => .error .invalidSessionName
  | some name =>
    if name = [] then .error .invalidSessionName
    else if settings.storagePath = some [] then .error .invalidArg
    else if displayNameSize ≤ name.length then .error .invalidSessionName
    else if flags &&& ~~~sessionFlagsValid ≠ 0 then .error .invalidArg
    else if settings.featureFlags &&& ~~~featureFlagsValid ≠ 0 then .error .invalidArg
    else if settings.storageFlags &&& ~~~storageFlagsValid ≠ 0 then .error .invalidArg
    else if isReservedSessionName name then .error .sessionReserved
    else .ok name

def openRoutine (named : SessionEntry σ → Bool) (token : Token σ) (entry : SessionEntry σ) :
    Option (Outcome σ) :=
  if named entry then
    match checkTokenAccess entry token with
    | .error error => some (.refused error)
    | .ok () => some (.opened entry)
  else none

omit [DecidableEq σ] in
/-- The part of `CreateSession` after the search for an existing session. -/
def launch (creation : Creation) (token : Token σ) (name : WString) (flags : BitVec 32) (m : Manager σ) :
    Outcome σ × Manager σ :=
  match creation with
  | .failedEarly => (.refused .creationFailed, m)
  | .failed | .rejected => (.refused .creationFailed, { m with nextSessionId := m.nextSessionId + 1 })
  | .succeeded =>
    let entry : SessionEntry σ := ⟨m.nextSessionId, name, token⟩
    (.created entry,
      { sessions := m.sessions ++ [entry]
        persistentSessions :=
          if flags &&& sessionFlagsPersistent ≠ 0 then m.persistentSessions ++ [m.nextSessionId] else m.persistentSessions
        nextSessionId := m.nextSessionId + 1 })

/-- `CreateSession` for a name that is resolved. -/
def createNamed (gone : UInt32 → Bool) (creation : Creation) (token : Token σ) (name : WString)
    (flags : BitVec 32)
    (m : Manager σ) : Outcome σ × Manager σ :=
  let routine := fun entry : SessionEntry σ =>
    if entry.displayName = name ∧ flags &&& sessionFlagsOpenExisting = 0 then some (.refused .alreadyExists)
    else openRoutine (·.displayName == name) token entry
  match forEachSession gone routine m with
  | (some outcome, m) => (outcome, m)
  | (none, m) => launch creation token name flags m

def createSession (userName : σ → WString) (gone : UInt32 → Bool) (creation : Creation) (token : Token σ)
    (settings : Option Settings) (flags : BitVec 32) (m : Manager σ) : Outcome σ × Manager σ :=
  match settings with
  | none =>
    createNamed gone creation token (resolveDefaultSessionName userName token)
      (sessionFlagsOpenExisting ||| sessionFlagsPersistent) m
  | some settings =>
    match checkSettings settings flags with
    | .error error => (.refused error, m)
    | .ok name => createNamed gone creation token name flags m

def openSession (gone : UInt32 → Bool) (token : Token σ) (id : UInt32) (m : Manager σ) :
    Outcome σ × Manager σ :=
  match forEachSession gone (openRoutine (·.sessionId == id) token) m with
  | (some outcome, m) => (outcome, m)
  | (none, m) => (.refused .sessionNotFound, m)

def openSessionByName (userName : σ → WString) (gone : UInt32 → Bool) (token : Token σ)
    (displayName : Option WString)
    (m : Manager σ) : Outcome σ × Manager σ :=
  let name := displayName.getD (resolveDefaultSessionName userName token)
  match forEachSession gone (openRoutine (·.displayName == name) token) m with
  | (some outcome, m) => (outcome, m)
  | (none, m) => (.refused .sessionNotFound, m)

/-- A call of an account, with the sessions that are gone by then. -/
inductive Request where
  | create (settings : Option Settings) (flags : BitVec 32) (creation : Creation)
  | enter (displayName storagePath : WString) (creation : Creation)
  | openById (id : UInt32)
  | openByName (displayName : Option WString)

structure Call (σ : Type) where
  token : Token σ
  gone : UInt32 → Bool
  request : Request

def Call.run (userName : σ → WString) (call : Call σ) (m : Manager σ) : Outcome σ × Manager σ :=
  match call.request with
  | .create settings flags creation => createSession userName call.gone creation call.token settings flags m
  | .enter displayName storagePath creation =>
    if displayName = [] ∨ storagePath = [] then (.refused .invalidArg, m)
    else
      createSession userName call.gone creation call.token
        (some { displayName := some displayName, storagePath := some storagePath, storageFlags := storageFlagsNoCreate }) 0 m
  | .openById id => openSession call.gone call.token id m
  | .openByName displayName => openSessionByName userName call.gone call.token displayName m

/-- The sessions that were created and by whom, and the manager. -/
structure State (σ : Type) where
  manager : Manager σ := {}
  creations : List (Token σ × SessionEntry σ) := []

omit [DecidableEq σ] in
def State.record (s : State σ) (token : Token σ) : Outcome σ × Manager σ → State σ
  | (.created entry, m) => ⟨m, s.creations ++ [(token, entry)]⟩
  | (.opened _, m) | (.refused _, m) => ⟨m, s.creations⟩

def step (userName : σ → WString) (call : Call σ) (s : State σ) : State σ :=
  s.record call.token (call.run userName s.manager)

def Call.outcome (userName : σ → WString) (call : Call σ) (s : State σ) : Outcome σ :=
  (call.run userName s.manager).1

def Request.isDefault : Request → Bool
  | .create none _ _ | .openByName none => true
  | _ => false

def Request.customName : Request → Option WString
  | .create (some settings) _ _ => settings.displayName
  | .enter displayName _ _ => some displayName
  | _ => none

/-- What the accounts may expect of a call after the calls before. -/
structure Isolated (userName : σ → WString) (call : Call σ) (s : State σ) : Prop where
  own : call.request.isDefault = true → ∀ session, call.outcome userName s = .opened session →
    (call.token, session) ∈ s.creations
  served : call.request.isDefault = true → call.outcome userName s ≠ .refused .accessDenied ∧
    call.outcome userName s ≠ .refused .elevationRequired ∧ call.outcome userName s ≠ .refused .alreadyExists
  reserved : ∀ token name, call.request.customName = some name → name = resolveDefaultSessionName userName token →
    ∃ error, call.outcome userName s = .refused error
  unelevated : call.token.elevated = false → ∀ session, call.outcome userName s = .opened session →
    (call.token, session) ∈ s.creations
  creator : ∀ session, call.outcome userName s = .created session → session.owner = call.token

/-- No two callers of one elevation have the same user name, and no caller without elevation has
the user name of an elevated one after `admin-`. -/
def Distinguished (userName : σ → WString) (callers : Token σ → Prop) : Prop :=
  ∀ token token', callers token → callers token' →
    (token.elevated = token'.elevated → token.sid ≠ token'.sid → userName token.sid ≠ userName token'.sid) ∧
      (token.elevated = false → token'.elevated = true →
        userName token.sid ≠ wide ['a', 'd', 'm', 'i', 'n', '-'] ++ userName token'.sid)

end Manager

section Names

variable {σ : Type} (userName : σ → WString)

theorem resolveDefaultSessionName_eq (token : Token σ) :
    ∃ rest, resolveDefaultSessionName userName token = defaultSessionName ++ (wide ['-'] ++ rest) := by
  unfold resolveDefaultSessionName
  split
  · exact ⟨wide ['a', 'd', 'm', 'i', 'n', '-'] ++ userName token.sid, by simp [defaultAdminSessionName, wide]⟩
  · exact ⟨userName token.sid, append_assoc _ _ _⟩

theorem isReservedSessionName_append (rest : WString) :
    isReservedSessionName (defaultSessionName ++ (wide ['-'] ++ rest)) = true := by
  have htake : (defaultSessionName ++ (wide ['-'] ++ rest)).take defaultSessionName.length = defaultSessionName :=
    take_left
  have hget : (defaultSessionName ++ (wide ['-'] ++ rest))[defaultSessionName.length]? = (wide ['-'])[0]? := by
    rw [getElem?_append_right (Nat.le_refl _), Nat.sub_self]
    rfl
  have hlen : ¬(defaultSessionName ++ (wide ['-'] ++ rest)).length < defaultSessionName.length := by
    rw [length_append]
    omega
  have hequal : isEqualNoCase defaultSessionName defaultSessionName = true := by decide
  rw [isReservedSessionName, if_neg hlen, htake, hequal, hget]
  simp

theorem isReservedSessionName_default (token : Token σ) :
    isReservedSessionName (resolveDefaultSessionName userName token) = true := by
  obtain ⟨rest, heq⟩ := resolveDefaultSessionName_eq userName token
  rw [heq]
  exact isReservedSessionName_append rest

theorem resolveDefaultSessionName_inj {token token' : Token σ}
    (h : resolveDefaultSessionName userName token = resolveDefaultSessionName userName token') :
    (token.elevated = token'.elevated ∧ userName token.sid = userName token'.sid) ∨
      (token.elevated = false ∧ token'.elevated = true ∧
        userName token.sid = wide ['a', 'd', 'm', 'i', 'n', '-'] ++ userName token'.sid) ∨
      (token'.elevated = false ∧ token.elevated = true ∧
        userName token'.sid = wide ['a', 'd', 'm', 'i', 'n', '-'] ++ userName token.sid) := by
  have hadmin : ∀ name, defaultAdminSessionName ++ wide ['-'] ++ name =
      defaultSessionName ++ wide ['-'] ++ (wide ['a', 'd', 'm', 'i', 'n', '-'] ++ name) := by
    intro name
    simp [defaultAdminSessionName, wide]
  unfold resolveDefaultSessionName at h
  cases helev : token.elevated with
  | false =>
    cases helev' : token'.elevated with
    | false =>
      rw [helev, helev'] at h
      exact .inl ⟨rfl, append_cancel_left h⟩
    | true =>
      rw [helev, helev', if_pos rfl, hadmin] at h
      exact .inr (.inl ⟨rfl, rfl, append_cancel_left h⟩)
  | true =>
    cases helev' : token'.elevated with
    | false =>
      rw [helev, helev', if_pos rfl, hadmin] at h
      exact .inr (.inr ⟨rfl, rfl, (append_cancel_left h).symm⟩)
    | true =>
      rw [helev, helev'] at h
      exact .inl ⟨rfl, append_cancel_left h⟩

variable {userName} {callers : Token σ → Prop} {token token' : Token σ}

theorem Distinguished.eq (h : Distinguished userName callers) (ht : callers token) (ht' : callers token')
    (heq : resolveDefaultSessionName userName token = resolveDefaultSessionName userName token') :
    token = token' := by
  rcases resolveDefaultSessionName_inj userName heq with ⟨helev, hname⟩ | ⟨hfalse, htrue, hname⟩ | ⟨hfalse, htrue, hname⟩
  · obtain ⟨sid, elevated⟩ := token
    obtain ⟨sid', elevated'⟩ := token'
    have hsid : sid = sid' := by
      by_contra hne
      exact (h _ _ ht ht').1 helev hne hname
    exact congr (congrArg Token.mk hsid) helev
  · exact absurd hname ((h _ _ ht ht').2 hfalse htrue)
  · exact absurd hname ((h _ _ ht' ht).2 hfalse htrue)

theorem exists_of_not_distinguished (h : ¬Distinguished userName callers) :
    ∃ token token', callers token ∧ callers token' ∧ token ≠ token' ∧
      resolveDefaultSessionName userName token = resolveDefaultSessionName userName token' := by
  simp only [Distinguished, not_forall] at h
  obtain ⟨token, token', ht, ht', h⟩ := h
  refine ⟨token, token', ht, ht', ?_⟩
  rw [not_and_or] at h
  rcases h with h | h
  · simp only [not_forall, not_not] at h
    obtain ⟨helev, hne, hname⟩ := h
    refine ⟨fun heq => hne (congrArg Token.sid heq), ?_⟩
    unfold resolveDefaultSessionName
    rw [helev, hname]
  · simp only [not_forall, not_not] at h
    obtain ⟨hfalse, htrue, hname⟩ := h
    refine ⟨fun heq => ?_, ?_⟩
    · rw [heq, htrue] at hfalse
      cases hfalse
    · unfold resolveDefaultSessionName
      rw [hfalse, htrue, hname, if_pos rfl]
      simp [defaultAdminSessionName, wide]

end Names

section Calls

variable {σ ρ : Type}

variable {gone : UInt32 → Bool}

theorem forEachSession_some {routine : SessionEntry σ → Option ρ} {m m' : Manager σ} {x : ρ}
    (h : forEachSession gone routine m = (some x, m')) : ∃ entry ∈ m.sessions, routine entry = some x := by
  obtain ⟨entry, hentry, hx⟩ := exists_of_findSome?_eq_some (congrArg Prod.fst h)
  exact ⟨entry, mem_of_mem_filter hentry, hx⟩

theorem forEachSession_sessions {routine : SessionEntry σ → Option ρ} {m m' : Manager σ}
    {x : Option ρ} (h : forEachSession gone routine m = (x, m')) :
    ∀ entry ∈ m'.sessions, entry ∈ m.sessions := by
  cases h
  exact fun _ => mem_of_mem_filter

variable [DecidableEq σ]

variable {entry : SessionEntry σ} {token : Token σ}

theorem eq_of_checkTokenAccess (h : checkTokenAccess entry token = .ok ())
    (helev : token.elevated = false) : entry.owner = token := by
  unfold checkTokenAccess at h
  rw [helev, if_neg Bool.false_ne_true] at h
  split at h
  · cases h
  next hsid =>
    split at h
    · cases h
    next hown =>
      rw [not_not] at hsid
      rw [Bool.not_eq_true] at hown
      obtain ⟨sid, elevated⟩ := token
      obtain ⟨_, _, sid', elevated'⟩ := entry
      exact congr (congrArg Token.mk hsid) (hown.trans helev.symm)

theorem checkTokenAccess_self (h : entry.owner = token) : checkTokenAccess entry token = .ok () := by
  unfold checkTokenAccess
  rw [h]
  cases token.elevated <;> simp

/-- What a search for a session by a test of it comes to. -/
inductive Found (named : SessionEntry σ → Bool) (token : Token σ) (m : Manager σ) : Outcome σ → Prop where
  | opened {entry : SessionEntry σ} (hmem : entry ∈ m.sessions) (hnamed : named entry = true)
      (haccess : checkTokenAccess entry token = .ok ()) : Found named token m (.opened entry)
  | denied {entry : SessionEntry σ} {error : Error} (hmem : entry ∈ m.sessions) (hnamed : named entry = true)
      (haccess : checkTokenAccess entry token = .error error) : Found named token m (.refused error)

theorem found_of_openRoutine {named : SessionEntry σ → Bool} {m : Manager σ} {outcome : Outcome σ}
    (hmem : entry ∈ m.sessions)
    (h : openRoutine named token entry = some outcome) : Found named token m outcome := by
  unfold openRoutine at h
  split at h
  next hnamed =>
    split at h
    next error haccess =>
      cases h
      exact .denied hmem hnamed haccess
    next haccess =>
      cases h
      exact .opened hmem hnamed haccess
  next => cases h

/-- What `CreateSession` comes to for a name that is resolved. -/
inductive CreatedNamed (token : Token σ) (name : WString) (flags : BitVec 32) (m : Manager σ) :
    Outcome σ × Manager σ → Prop where
  | existing {m' : Manager σ} (hflags : flags &&& sessionFlagsOpenExisting = 0)
      (hm : ∀ entry ∈ m'.sessions, entry ∈ m.sessions) :
      CreatedNamed token name flags m (.refused .alreadyExists, m')
  | found {outcome : Outcome σ} {m' : Manager σ} (h : Found (·.displayName == name) token m outcome)
      (hm : ∀ entry ∈ m'.sessions, entry ∈ m.sessions) : CreatedNamed token name flags m (outcome, m')
  | failed {m' : Manager σ} (hm : ∀ entry ∈ m'.sessions, entry ∈ m.sessions) :
      CreatedNamed token name flags m (.refused .creationFailed, m')
  | created {entry : SessionEntry σ} {m' : Manager σ} (hname : entry.displayName = name) (howner : entry.owner = token)
      (hm : ∀ entry' ∈ m'.sessions, entry' ∈ m.sessions ∨ entry' = entry) :
      CreatedNamed token name flags m (.created entry, m')

theorem createNamed_cases (gone : UInt32 → Bool) (creation : Creation) (token : Token σ) (name : WString)
    (flags : BitVec 32) (m : Manager σ) :
    CreatedNamed token name flags m (createNamed gone creation token name flags m) := by
  unfold createNamed
  simp only []
  split
  next outcome m' heq =>
    have hm := forEachSession_sessions heq
    obtain ⟨entry, hmem, hroutine⟩ := forEachSession_some heq
    split at hroutine
    next hexists =>
      cases hroutine
      exact .existing hexists.2 hm
    next => exact .found (found_of_openRoutine hmem hroutine) hm
  next m' heq =>
    have hm := forEachSession_sessions heq
    unfold launch
    cases creation with
    | failedEarly => exact .failed hm
    | failed => exact .failed hm
    | rejected => exact .failed hm
    | succeeded =>
      refine .created rfl rfl ?_
      intro entry' hentry'
      rcases mem_append.mp hentry' with hold | hnew
      · exact .inl (hm entry' hold)
      · exact .inr (mem_singleton.mp hnew)

theorem checkSettings_ok {settings : Settings} {flags : BitVec 32} {name : WString}
    (h : checkSettings settings flags = .ok name) :
    settings.displayName = some name ∧ isReservedSessionName name = false := by
  unfold checkSettings at h
  cases hname : settings.displayName with
  | none =>
    rw [hname] at h
    cases h
  | some name' =>
    rw [hname] at h
    simp only [] at h
    repeat' split at h
    all_goals cases h
    exact ⟨rfl, Bool.eq_false_iff.mpr (by assumption)⟩

inductive Ran (userName : σ → WString) (call : Call σ) (m : Manager σ) : Outcome σ × Manager σ → Prop where
  | createDefault (hdefault : call.request.isDefault = true) {result : Outcome σ × Manager σ}
      (h : CreatedNamed call.token (resolveDefaultSessionName userName call.token)
        (sessionFlagsOpenExisting ||| sessionFlagsPersistent) m result) : Ran userName call m result
  | createCustom (hcustom : call.request.isDefault = false) {name : WString} {flags : BitVec 32}
      (hname : call.request.customName = some name) (hreserved : isReservedSessionName name = false)
      {result : Outcome σ × Manager σ} (h : CreatedNamed call.token name flags m result) : Ran userName call m result
  | checked (hcustom : call.request.isDefault = false) (error : Error) : Ran userName call m (.refused error, m)
  | opened {named : SessionEntry σ → Bool}
      (hnamed : call.request.isDefault = true → named = (·.displayName == resolveDefaultSessionName userName call.token))
      (hname : call.request.customName = none) {outcome : Outcome σ} {m' : Manager σ}
      (h : Found named call.token m outcome) (hm : ∀ entry ∈ m'.sessions, entry ∈ m.sessions) :
      Ran userName call m (outcome, m')
  | notFound (hname : call.request.customName = none) {m' : Manager σ}
      (hm : ∀ entry ∈ m'.sessions, entry ∈ m.sessions) : Ran userName call m (.refused .sessionNotFound, m')

theorem createSession_ran {userName : σ → WString} {creation : Creation} {call : Call σ}
    {settings : Option Settings} {flags : BitVec 32} (m : Manager σ)
    (hdef : call.request.isDefault = settings.isNone)
    (hname : call.request.customName = settings.bind Settings.displayName) :
    Ran userName call m (createSession userName gone creation call.token settings flags m) := by
  cases settings with
  | none => exact .createDefault hdef (createNamed_cases gone creation call.token _ _ m)
  | some settings =>
    unfold createSession
    simp only []
    split
    next error _ => exact .checked hdef error
    next name hok =>
      obtain ⟨hsome, hres⟩ := checkSettings_ok hok
      exact .createCustom hdef (hname.trans hsome) hres (createNamed_cases gone creation call.token name flags m)

theorem Call.run_ran (userName : σ → WString) (call : Call σ) (m : Manager σ) :
    Ran userName call m (call.run userName m) := by
  unfold Call.run
  split
  next settings flags creation hreq =>
    apply createSession_ran m
    · rw [hreq]
      cases settings <;> rfl
    · rw [hreq]
      cases settings <;> rfl
  next displayName storagePath creation hreq =>
    split
    · exact .checked (by rw [hreq]; rfl) _
    · apply createSession_ran m <;> rw [hreq] <;> rfl
  next id hreq =>
    have hname : call.request.customName = none := by rw [hreq]; rfl
    unfold openSession
    split
    next outcome m' heq =>
      obtain ⟨entry, hmem, hroutine⟩ := forEachSession_some heq
      refine .opened ?_ hname (found_of_openRoutine hmem hroutine) (forEachSession_sessions heq)
      rw [hreq]
      intro h
      cases h
    next m' heq => exact .notFound hname (forEachSession_sessions heq)
  next displayName hreq =>
    have hname : call.request.customName = none := by rw [hreq]; rfl
    unfold openSessionByName
    simp only []
    split
    next outcome m' heq =>
      obtain ⟨entry, hmem, hroutine⟩ := forEachSession_some heq
      refine .opened ?_ hname (found_of_openRoutine hmem hroutine) (forEachSession_sessions heq)
      rw [hreq]
      intro h
      cases displayName with
      | none => rfl
      | some name => cases h
    next m' heq => exact .notFound hname (forEachSession_sessions heq)

end Calls

section Isolation

variable {σ : Type} {userName : σ → WString} {callers : Token σ → Prop} {call : Call σ} {s : State σ}

/-- Every session was created by its owner, and under a reserved name only as its default session. -/
structure Owned (userName : σ → WString) (callers : Token σ → Prop) (s : State σ) : Prop where
  created : ∀ entry ∈ s.manager.sessions, (entry.owner, entry) ∈ s.creations
  caller : ∀ entry ∈ s.manager.sessions, callers entry.owner
  named : ∀ entry ∈ s.manager.sessions, isReservedSessionName entry.displayName = true →
    entry.displayName = resolveDefaultSessionName userName entry.owner

section

variable (hs : Owned userName callers s)
include hs

theorem Owned.mono {m' : Manager σ}
    (hm : ∀ entry ∈ m'.sessions, entry ∈ s.manager.sessions) : Owned userName callers ⟨m', s.creations⟩ :=
  ⟨fun entry h => hs.created entry (hm entry h), fun entry h => hs.caller entry (hm entry h),
    fun entry h => hs.named entry (hm entry h)⟩

theorem Owned.add {token : Token σ} (htoken : callers token) {entry : SessionEntry σ}
    {m' : Manager σ} (hown : entry.owner = token) (hname : isReservedSessionName entry.displayName = true →
      entry.displayName = resolveDefaultSessionName userName token)
    (hm : ∀ entry' ∈ m'.sessions, entry' ∈ s.manager.sessions ∨ entry' = entry) :
    Owned userName callers ⟨m', s.creations ++ [(token, entry)]⟩ := by
  subst hown
  refine ⟨?_, ?_, ?_⟩
  · intro entry' hentry'
    rcases hm entry' hentry' with hold | rfl
    · exact mem_append_left _ (hs.created entry' hold)
    · exact mem_append_right _ (mem_singleton.mpr rfl)
  · intro entry' hentry'
    rcases hm entry' hentry' with hold | rfl
    · exact hs.caller entry' hold
    · exact htoken
  · intro entry' hentry'
    rcases hm entry' hentry' with hold | rfl
    · exact hs.named entry' hold
    · exact hname

theorem Owned.own (hdistinguished : Distinguished userName callers)
    (hcaller : callers call.token) {entry : SessionEntry σ} (hmem : entry ∈ s.manager.sessions)
    (hnamed : (entry.displayName == resolveDefaultSessionName userName call.token) = true) :
    entry.owner = call.token := by
  rw [beq_iff_eq] at hnamed
  have hname := hs.named entry hmem (by rw [hnamed]; exact isReservedSessionName_default userName call.token)
  exact hdistinguished.eq (hs.caller entry hmem) hcaller (hname.symm.trans hnamed)

end

variable [DecidableEq σ]

variable {result : Outcome σ × Manager σ}

theorem Owned.record_created (hs : Owned userName callers s) (hcaller : callers call.token) {name : WString}
    {flags : BitVec 32}
    (hname : isReservedSessionName name = true → name = resolveDefaultSessionName userName call.token)
    (h : CreatedNamed call.token name flags s.manager result) :
    Owned userName callers (s.record call.token result) := by
  cases h with
  | existing _ hm => exact hs.mono hm
  | failed hm => exact hs.mono hm
  | found hfound hm => cases hfound <;> exact hs.mono hm
  | created hname' hown hm =>
    refine hs.add hcaller hown ?_ hm
    rw [hname']
    exact hname

theorem Owned.step (hs : Owned userName callers s) (hcaller : callers call.token) :
    Owned userName callers (Sessions.step userName call s) := by
  have hran := call.run_ran userName s.manager
  rw [Sessions.step]
  generalize call.run userName s.manager = result at hran ⊢
  cases hran with
  | createDefault _ h => exact hs.record_created hcaller (fun _ => rfl) h
  | createCustom _ _ hres h =>
    refine hs.record_created hcaller ?_ h
    rw [hres]
    intro hfalse
    cases hfalse
  | checked _ error => exact hs.mono (fun _ h => h)
  | opened _ _ hfound hm => cases hfound <;> exact hs.mono hm
  | notFound _ hm => exact hs.mono hm

theorem Owned.run {ops : List (Call σ)} (hops : ∀ call ∈ ops, callers call.token)
    (hs : Owned userName callers s) :
    Owned userName callers (runSteps (Sessions.step userName) ops s) := by
  induction ops generalizing s with
  | nil => exact hs
  | cons call ops ih =>
    apply ih (fun call' hcall' => hops call' (mem_cons_of_mem _ hcall'))
    exact hs.step (hops call mem_cons_self)

omit [DecidableEq σ] in
theorem Owned.initial : Owned userName callers {} :=
  ⟨fun _ h => absurd h not_mem_nil, fun _ h => absurd h not_mem_nil, fun _ h => absurd h not_mem_nil⟩

theorem Owned.of_found (hs : Owned userName callers s) {named : SessionEntry σ → Bool}
    {session : SessionEntry σ}
    (h : Found named call.token s.manager (.opened session)) :
    ((call.token.elevated = false ∨ session.owner = call.token) → (call.token, session) ∈ s.creations) := by
  cases h with
  | opened hmem _ haccess =>
    intro hown
    have heq : session.owner = call.token := by
      rcases hown with helev | heq
      · exact eq_of_checkTokenAccess haccess helev
      · exact heq
    rw [← heq]
    exact hs.created session hmem

/-- The session that a call gives out was found in a search, of the caller's default name if that
was asked for. -/
theorem Ran.found {m : Manager σ} (h : Ran userName call m result)
    {session : SessionEntry σ} (hopened : result.1 = .opened session) :
    ∃ named, Found named call.token m (.opened session) ∧
      (call.request.isDefault = true → named = (·.displayName == resolveDefaultSessionName userName call.token)) := by
  cases h with
  | createDefault _ h =>
    cases h with
    | found hfound =>
      simp only at hopened
      subst hopened
      exact ⟨_, hfound, fun _ => rfl⟩
    | existing | failed | created => cases hopened
  | createCustom hcustom _ _ h =>
    cases h with
    | found hfound =>
      simp only at hopened
      subst hopened
      refine ⟨_, hfound, fun hdef => ?_⟩
      rw [hcustom] at hdef
      cases hdef
    | existing | failed | created => cases hopened
  | checked | notFound => cases hopened
  | opened hnamed _ hfound =>
    simp only at hopened
    subst hopened
    exact ⟨_, hfound, hnamed⟩

theorem Ran.refused {m : Manager σ} (h : Ran userName call m result)
    (hdef : call.request.isDefault = true) {error : Error} (href : result.1 = .refused error) :
    Found (·.displayName == resolveDefaultSessionName userName call.token) call.token m (.refused error) ∨
      error = .creationFailed ∨ error = .sessionNotFound := by
  cases h with
  | createDefault _ h =>
    cases h with
    | found hfound =>
      simp only at href
      subst href
      exact .inl hfound
    | existing hflags => exact absurd hflags (by decide)
    | failed =>
      cases href
      exact .inr (.inl rfl)
    | created => cases href
  | createCustom hcustom | checked hcustom =>
    rw [hcustom] at hdef
    cases hdef
  | notFound =>
    cases href
    exact .inr (.inr rfl)
  | opened hnamed _ hfound =>
    simp only at href
    subst href
    rw [← hnamed hdef]
    exact .inl hfound

theorem Owned.isolated (hs : Owned userName callers s) (hdistinguished : Distinguished userName callers)
    (hcaller : callers call.token) : Isolated userName call s := by
  have hran := call.run_ran userName s.manager
  have hown : ∀ {outcome}, Found (·.displayName == resolveDefaultSessionName userName call.token) call.token s.manager outcome →
      ∃ session, outcome = .opened session ∧ session.owner = call.token := by
    intro outcome hfound
    cases hfound with
    | opened hmem hnamed => exact ⟨_, rfl, hs.own hdistinguished hcaller hmem hnamed⟩
    | denied hmem hnamed haccess =>
      rw [checkTokenAccess_self (hs.own hdistinguished hcaller hmem hnamed)] at haccess
      cases haccess
  have hserved : call.request.isDefault = true → ∀ error, call.outcome userName s = .refused error →
      error = .creationFailed ∨ error = .sessionNotFound := by
    intro hdef error href
    rcases hran.refused hdef href with hfound | herror
    · obtain ⟨session, heq, -⟩ := hown hfound
      cases heq
    · exact herror
  refine ⟨?_, ?_, ?_, ?_, ?_⟩
  · intro hdef session hopened
    obtain ⟨named, hfound, hnamed⟩ := hran.found hopened
    rw [hnamed hdef] at hfound
    obtain ⟨session', heq, howner⟩ := hown hfound
    cases heq
    exact hs.of_found hfound (.inr howner)
  · intro hdef
    refine ⟨?_, ?_, ?_⟩ <;> intro href <;> rcases hserved hdef _ href with h | h <;> cases h
  · intro token name hcustom hname
    generalize hres : call.run userName s.manager = result at hran
    have hout : call.outcome userName s = result.1 := congrArg Prod.fst hres
    rw [hout]
    cases hran with
    | createDefault hdef =>
      obtain ⟨_, _, request⟩ := call
      cases request with
      | create settings => cases settings <;> first | cases hcustom | cases hdef
      | openByName => cases hcustom
      | enter => cases hdef
      | openById => cases hdef
    | createCustom _ hname' hreserved =>
      rw [hname'] at hcustom
      cases hcustom
      rw [hname, isReservedSessionName_default] at hreserved
      cases hreserved
    | checked _ error => exact ⟨error, rfl⟩
    | opened _ hname' | notFound hname' =>
      rw [hname'] at hcustom
      cases hcustom
  · intro helev session hopened
    obtain ⟨named, hfound, -⟩ := hran.found hopened
    exact hs.of_found hfound (.inl helev)
  · intro session hcreated
    generalize hres : call.run userName s.manager = result at hran
    have hout : result.1 = .created session := (congrArg Prod.fst hres).symm.trans hcreated
    cases hran with
    | createDefault _ h | createCustom _ _ _ h =>
      cases h with
      | created _ howner =>
        cases hout
        exact howner
      | found hfound => cases hfound <;> cases hout
      | existing | failed => cases hout
    | checked | notFound => cases hout
    | opened _ _ hfound => cases hfound <;> cases hout

def createDefault (token : Token σ) : Call σ := ⟨token, fun _ => false, .create none 0 .succeeded⟩

def openDefault (token : Token σ) : Call σ := ⟨token, fun _ => false, .openByName none⟩

theorem step_createDefault (token : Token σ) :
    step userName (createDefault token) {} =
      ⟨{ sessions := [⟨1, resolveDefaultSessionName userName token, token⟩], persistentSessions := [1], nextSessionId := 2 },
        [(token, ⟨1, resolveDefaultSessionName userName token, token⟩)]⟩ := rfl

theorem not_isolated {token token' : Token σ} (hne : token ≠ token')
    (hname : resolveDefaultSessionName userName token = resolveDefaultSessionName userName token') :
    ¬Isolated userName (openDefault token) (step userName (createDefault token') {}) := by
  rw [step_createDefault, ← hname]
  intro h
  have hout : (openDefault token).outcome userName
      ⟨{ sessions := [⟨1, resolveDefaultSessionName userName token, token'⟩], persistentSessions := [1], nextSessionId := 2 },
        [(token', ⟨1, resolveDefaultSessionName userName token, token'⟩)]⟩ =
      match checkTokenAccess ⟨1, resolveDefaultSessionName userName token, token'⟩ token with
      | .error error => .refused error
      | .ok () => .opened ⟨1, resolveDefaultSessionName userName token, token'⟩ := by
    simp only [Call.outcome, openDefault, Call.run, openSessionByName, forEachSession, Option.getD_none,
      Bool.not_false, filter_true, findSome?_cons, findSome?_nil, openRoutine, beq_self_eq_true, if_true]
    cases checkTokenAccess ⟨1, resolveDefaultSessionName userName token, token'⟩ token <;> rfl
  cases haccess : checkTokenAccess ⟨1, resolveDefaultSessionName userName token, token'⟩ token with
  | ok u =>
    rw [haccess] at hout
    have hmem := h.own rfl _ hout
    rw [mem_singleton, Prod.mk.injEq] at hmem
    exact hne hmem.1
  | error error =>
    rw [haccess] at hout
    obtain ⟨hdenied, helevation, -⟩ := h.served rfl
    unfold checkTokenAccess at haccess
    split at haccess
    · cases haccess
    · split at haccess
      · cases haccess
        exact hdenied hout
      · split at haccess
        · cases haccess
          exact helevation hout
        · cases haccess

/-- The accounts are kept apart in every history of calls exactly when their user names tell them
apart. -/
theorem isolated_iff_distinguished (userName : σ → WString) (callers : Token σ → Prop) :
    (∀ ops : List (Call σ), (∀ call ∈ ops, callers call.token) → ∀ call : Call σ, callers call.token →
      Isolated userName call (runSteps (step userName) ops {})) ↔ Distinguished userName callers := by
  constructor
  · intro h
    by_contra hnot
    obtain ⟨token, token', htoken, htoken', hne, hname⟩ := exists_of_not_distinguished hnot
    have hops : ∀ call ∈ [createDefault token'], callers call.token := by
      intro call hcall
      rw [mem_singleton.mp hcall]
      exact htoken'
    exact not_isolated hne hname (h [createDefault token'] hops (openDefault token) htoken)
  · intro hdistinguished ops hops call hcaller
    exact (Owned.initial.run hops).isolated hdistinguished hcaller

end Isolation

/-- Two accounts of different domains with one user name. -/
theorem same_user_name_denied :
    ¬∀ (userName : Nat → WString) (ops : List (Call Nat)) (call : Call Nat),
      Isolated userName call (runSteps (step userName) ops {}) := by
  intro h
  have hserved := (h (fun _ => wide ['b', 'o', 'b']) [createDefault ⟨1001, false⟩] (openDefault ⟨2002, false⟩)).served rfl
  exact hserved.1 (by decide)

end Sessions

end WslPlus.Wslc
