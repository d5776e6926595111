import WslPlus.Lib.Retry

/-!
# Messages to the network configuration of the guest

`NetworkManagerGnsMessageCallback` queues a work item that sends a message over the channel of the guest network
service, with `RetryWithTimeout` around it. The channel throws; the routine that is repeated turns every
exception into a result.
-/

namespace WslPlus.Network.GnsRetry

inductive MessageType where
  | vmNicCreatedNotification
  | createDeviceRequest
  | modifyGuestDeviceSettingRequest
  | loopbackRoutesRequest
  | deviceSettingRequest
  | initialIpConfigurationNotification
  | setupIpv6
  | interfaceConfiguration
  | noOp
  | globalNetFilter
  | interfaceNetFilter
  | connectTestRequest
  deriving DecidableEq

def eFail : Int := -2147467259

def eUnexpected : Int := -2147418113

def errorFatalAppExit : Int := 713

def errorShutdownInProgress : Int := 1115

def failed (hr : Int) : Bool := hr < 0

/-- What becomes of a message: the channel has been stopped, the transport throws, or the guest answers. -/
inductive Outcome where
  | stopped
  | transportError (hr : Int) (isFailure : failed hr = true)
  | answered (result : Int)

structure Answer where
  outcome : Outcome
  elapsed : Nat

def sendNetworkDeviceMessageReturnResult : Outcome → Except Int Int
  | .stopped => .ok errorShutdownInProgress
  | .transportError hr _ => .error hr
  | .answered result => .ok result

def sendNetworkDeviceMessage : Outcome → Except Int Unit
  | .stopped => .ok ()
  | .transportError hr _ => .error hr
  | .answered result => if result = 0 then .ok () else .error eUnexpected

def getGnsCallbackResult (messageType : MessageType) (transportResult linuxResultCode : Int) : Int :=
  if failed transportResult || messageType = .connectTestRequest || linuxResultCode = 0 then transportResult else eFail

structure Message where
  messageType : MessageType
  /-- `GnsCallbackFlags::Wait` -/
  wait : Bool
  hasResult : Bool

namespace Message

/-- The value behind `returnedValueFromGns` after an attempt. -/
def returnedValue (m : Message) (value : Int) (outcome : Outcome) : Int :=
  if m.wait then
    match sendNetworkDeviceMessageReturnResult outcome with
    | .ok result => result
    | .error _ => value
  else value

/-- `wil::ResultFromException` around the call of the channel. -/
def transportResult (m : Message) (outcome : Outcome) : Int :=
  if m.hasResult && m.wait then
    match sendNetworkDeviceMessageReturnResult outcome with
    | .ok _ => 0
    | .error hr => hr
  else
    match sendNetworkDeviceMessage outcome with
    | .ok _ => 0
    | .error hr => hr

/-- The routine that `RetryWithTimeout` repeats, from the value that the attempts before it have left. -/
def sendMessage (m : Message) (value : Int) (outcome : Outcome) : Int :=
  getGnsCallbackResult m.messageType (m.transportResult outcome)
    (if m.hasResult then m.returnedValue value outcome else 0)

def valueAfter (m : Message) (answers : Nat → Answer) : Nat → Int
  | 0 => errorFatalAppExit
  | k + 1 => m.returnedValue (valueAfter m answers k) (answers k).outcome

def attemptResult (m : Message) (answers : Nat → Answer) (k : Nat) : Int :=
  m.sendMessage (m.valueAfter answers k) (answers k).outcome

def attempt (m : Message) (answers : Nat → Answer) (k : Nat) : TimedAttempt Int Int where
  result := .ok (m.attemptResult answers k)
  elapsed := (answers k).elapsed

end Message

def retryPeriod : Nat := 100000000

def retryTimeout : Nat := 3000000000

theorem retryPeriod_pos : 0 < retryPeriod := by decide

namespace Message

def sendGnsMessage (m : Message) (answers : Nat → Answer) : Nat × Int :=
  match retryWithTimeout (m.attempt answers) retryPeriod retryTimeout (fun _ => true) retryPeriod_pos with
  | (made, .ok hr) => (made, hr)
  | (made, .error hr) => (made, hr)

def successful (m : Message) (answers : Nat → Answer) (k : Nat) : Bool := !failed (m.attemptResult answers k)

def windowPassed (m : Message) (answers : Nat → Answer) (k : Nat) : Prop :=
  retryTimeout < endTime (m.attempt answers) retryPeriod k

/-- The message is sent again until an attempt succeeds or the window has passed. The result is a success
exactly if the last attempt is one. -/
structure Resent (m : Message) (answers : Nat → Answer) (made : Nat) (hr : Int) : Prop where
  sent : 0 < made
  again : ∀ k, k + 1 < made → m.successful answers k = false ∧ ¬ m.windowPassed answers k
  ended : m.successful answers (made - 1) = true ∨ m.windowPassed answers (made - 1)
  result : failed hr = false ↔ m.successful answers (made - 1) = true

theorem sendGnsMessage_eq (m : Message) (answers : Nat → Answer) :
    m.sendGnsMessage answers = (1, m.attemptResult answers 0) := by
  have hfirst : retryWithTimeout (m.attempt answers) retryPeriod retryTimeout (fun _ => true) retryPeriod_pos =
      (1, .ok (m.attemptResult answers 0)) := retryWithTimeout_of_ok retryPeriod_pos rfl
  rw [sendGnsMessage, hfirst]

end Message

/-- A message is resent as it should be if and only if there is no reason to resend it: the first attempt
succeeds, or ends after the window. -/
theorem resent_iff (m : Message) (answers : Nat → Answer) :
    m.Resent answers (m.sendGnsMessage answers).1 (m.sendGnsMessage answers).2 ↔
      m.successful answers 0 = true ∨ retryTimeout < (answers 0).elapsed := by
  rw [Message.sendGnsMessage_eq]
  constructor
  · intro h
    exact h.ended
  · intro hended
    refine ⟨Nat.one_pos, ?_, hended, ?_⟩
    · intro k hk
      omega
    · rw [Message.successful, Bool.not_eq_true']
      exact Iff.rfl

def deviceSetting : Message where
  messageType := .deviceSettingRequest
  wait := true
  hasResult := true

def acceptedLater (k : Nat) : Answer where
  outcome := .answered (if k = 0 then 5 else 0)
  elapsed := 1000000

theorem failure_not_resent : ¬ deviceSetting.Resent acceptedLater (deviceSetting.sendGnsMessage acceptedLater).1
      (deviceSetting.sendGnsMessage acceptedLater).2 := by
  rw [Message.sendGnsMessage_eq]
  intro h
  rcases h.ended with hsuccessful | hpassed
  · exact absurd hsuccessful (by decide)
  · exact absurd hpassed (by decide : ¬ retryTimeout < 1000000)

end WslPlus.Network.GnsRetry
