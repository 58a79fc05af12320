import Wzdftpd.CNumber
import Wzdftpd.DataConnection
import Wzdftpd.Runs

/- PORT and EPRT (wzd_ClientThread.c): where the server is told to connect to. -/
namespace Wzdftpd

open CNumber

/-- The digits and commas of `"%d,%d,%d,%d,%u,%u"`, read from left to right. -/
def scanFields : Nat → Text → Option (List Reading)
  | 0, _ => some []
  | fields + 1, text => do
    let number ← readDecimal text
    if fields = 0 then some [number]
    else
      match number.rest with
      | ',' :: rest => do
        let more ← scanFields fields rest
        some (number :: more)
      | _ => none

def octets (a b c d : UInt8) : Vector UInt8 4 := #v[a, b, c, d]

/-- The six conversions: four address bytes and `((p1&0xff)<<8) | (p2&0xff)`. -/
def scanPort (arg : Text) : Option (Vector UInt8 4 × Nat) :=
  match scanFields 6 arg with
  | some [a0, a1, a2, a3, p1, p2] =>
    some (octets (.ofInt a0.toLong) (.ofInt a1.toLong) (.ofInt a2.toLong) (.ofInt a3.toLong),
      p1.toULong % 256 * 256 + p2.toULong % 256)
  | _ => none

/-- A new PORT or EPRT closes what a PASV has opened. -/
def closePasv (ctx : Context) : Context := { ctx with pasvSocket := none }

/-- `do_port` -/
def doPort (user : User) (arg : Text) (ctx : Context) : Outcome :=
  Outcome.after (closeSocket ctx.pasvSocket) <|
    let ctx := closePasv ctx
    match scanPort arg with
    | none => answer ctx .paramInvalid 502 []
    | some (front, port) =>
      let ctx := { ctx with dataip := ⟨front, ctx.dataip.back⟩ }
      if fxpIsDenied user ∧ testFxp ctx.dataip .inet4 ctx then
        answer { ctx with dataip := .zero } .noPerm 501 ["FXP not allowed"]
      else if port < 1024 then
        answer { ctx with dataip := .zero } .noPerm 501 ["Port not allowed"]
      else
        answer { ctx with dataport := port, datafamily := .inet4 } .ok 200 ["Command okay"]

/-- An address that `inet_pton` has converted. -/
inductive Address where
  | inet4 (bytes : Vector UInt8 4)
  | inet6 (bytes : Ip)

def Address.family : Address → NetFamily
  | .inet4 _ => .inet4
  | .inet6 _ => .inet6

def Address.store (old : Ip) : Address → Ip
  | .inet4 bytes => ⟨bytes, old.back⟩
  | .inet6 bytes => bytes

/-- `inet_pton` for the two families. -/
structure InetPton where
  inet4 : Text → Option (Vector UInt8 4)
  inet6 : Text → Option Ip

/-- The parts of `<d>proto<d>address<d>port<d>`. -/
def eprtFields (arg : Text) : Option (Char × Text × Text) :=
  match arg with
  | sep :: proto :: second :: rest =>
    if second ≠ sep ∨ (proto ≠ '1' ∧ proto ≠ '2') then none
    else
      match rest.dropWhile (· ≠ sep) with
      | [] => none
      | _ :: portText =>
        if sep ∈ portText then
          some (proto, rest.takeWhile (· ≠ sep), portText.takeWhile (· ≠ sep))
        else none
  | _ => none

/-- The number in the port field, as `strtoul` reads it. -/
def eprtPort (arg : Text) : Option Nat := (eprtFields arg).map fun fields => (strtoul fields.2.2).1

/-- The reply to a bad argument; the code is not `E_OK`. -/
def eprtError (ret : Errno) (text : String) : Errno × List Effect :=
  (ret, [.message 501 [text.toList]])

/-- The part of `do_eprt` that only reads its argument. -/
def parseEprt (pton : InetPton) (arg : Text) : Except (Errno × List Effect) (Address × Nat) :=
  if arg.length ≤ 7 then
    .error (.paramInvalid, [.message 502 [], .message 501 ["Invalid argument".toList]])
  else
    match eprtFields arg with
    | none => .error (eprtError .paramInvalid "Invalid argument")
    | some (proto, netAddr, portText) =>
      if (strtoul portText).2 ≠ [] then .error (eprtError .paramInvalid "Invalid port")
      else
        -- stored in an `unsigned int`
        let tcpPort := (strtoul portText).1 % 2 ^ 32
        if tcpPort < 1024 then .error (eprtError .noPerm "Port not allowed")
        else
          let address :=
            if proto = '1' then (pton.inet4 netAddr).map Address.inet4
            else (pton.inet6 netAddr).map Address.inet6
          match address with
          | none => .error (eprtError .paramInvalid "Invalid host")
          | some address => .ok (address, tcpPort)

/-- `do_eprt` -/
def doEprt (pton : InetPton) (user : User) (arg : Text) (ctx : Context) : Outcome :=
  Outcome.after (closeSocket ctx.pasvSocket) <|
    let ctx := closePasv ctx
    match parseEprt pton arg with
    | .error (ret, replies) => ⟨ret, ctx, replies⟩
    | .ok (address, tcpPort) =>
      let ctx := { ctx with
        dataip := address.store ctx.dataip, datafamily := address.family, dataport := tcpPort }
      if fxpIsDenied user ∧ testFxp ctx.dataip ctx.datafamily ctx then
        answer { ctx with dataip := .zero } .noPerm 501 ["FXP not allowed"]
      else answer ctx .ok 200 ["Command okay"]

/-- The port `socket_connect` puts into the address: `(unsigned short)remote_port`. -/
def connectPort (ctx : Context) : Nat := ctx.dataport % 65536

variable {arg : Text}

theorem scanPort_lt {front : Vector UInt8 4} {port : Nat}
    (scanned : scanPort arg = some (front, port)) : port < 65536 := by
  simp only [scanPort] at scanned
  split at scanned
  · cases scanned
    omega
  · cases scanned

theorem doPort_accepted {user : User} {ctx : Context} (accepted : (doPort user arg ctx).ret = .ok) :
    1024 ≤ (doPort user arg ctx).ctx.dataport ∧ (doPort user arg ctx).ctx.dataport < 65536 := by
  cases scanned : scanPort arg with
  | none => simp [doPort, scanned, answer] at accepted
  | some target =>
    have small := scanPort_lt scanned
    simp only [doPort, scanned] at accepted ⊢
    repeat' split at accepted
    · cases accepted
    · cases accepted
    · rename_i passed high
      rw [if_neg passed, if_neg high]
      exact ⟨Nat.not_lt.mp high, small⟩

variable {pton : InetPton}

theorem parseEprt_port {address : Address} {tcpPort : Nat}
    (parsed : parseEprt pton arg = .ok (address, tcpPort)) :
    ∃ written, eprtPort arg = some written ∧ tcpPort = written % 2 ^ 32 ∧ 1024 ≤ tcpPort := by
  simp only [parseEprt] at parsed
  split at parsed
  · cases parsed
  split at parsed
  · cases parsed
  rename_i proto netAddr portText fields
  split at parsed
  · cases parsed
  split at parsed
  · cases parsed
  · rename_i high
    refine ⟨(strtoul portText).1, by simp [eprtPort, fields], ?_⟩
    split at parsed <;> cases parsed
    exact ⟨rfl, Nat.not_lt.mp high⟩

theorem parseEprt_error {reply : Errno × List Effect}
    (failed : parseEprt pton arg = .error reply) : reply.1 ≠ .ok := by
  simp only [parseEprt] at failed
  repeat' split at failed
  all_goals cases failed
  all_goals exact Errno.noConfusion

theorem doEprt_accepted {user : User} {ctx : Context}
    (accepted : (doEprt pton user arg ctx).ret = .ok) :
    ∃ written, eprtPort arg = some written ∧
      (doEprt pton user arg ctx).ctx.dataport = written % 2 ^ 32 ∧ 1024 ≤ written % 2 ^ 32 := by
  cases parsed : parseEprt pton arg with
  | error reply =>
    simp only [doEprt, parsed] at accepted
    exact absurd accepted (parseEprt_error parsed)
  | ok target =>
    obtain ⟨written, named, same, high⟩ := parseEprt_port parsed
    refine ⟨written, named, ?_, same ▸ high⟩
    simp only [doEprt, parsed]
    rw [← same]
    split <;> rfl

inductive TargetCommand where
  | port (arg : Text)
  | eprt (arg : Text)

section Target

variable (pton : InetPton) (user : User)

def TargetCommand.run (ctx : Context) : TargetCommand → Context
  | .port arg => (doPort user arg ctx).ctx
  | .eprt arg => (doEprt pton user arg ctx).ctx

def AtPeer (ctx : Context) (ip : Ip) : Prop :=
  match ctx.family with
  | .inet4 => ip.front = ctx.hostip.front
  | .inet6 => ip = ctx.hostip
  | .none => False

instance (ctx : Context) (ip : Ip) : Decidable (AtPeer ctx ip) := by
  unfold AtPeer
  split <;> infer_instance

/-- Either there is no data target, or it is the peer of the control connection. -/
def Confined (ctx : Context) : Prop :=
  ctx.dataport = 0 ∨ (ctx.datafamily = ctx.family ∧ AtPeer ctx ctx.dataip)

instance (ctx : Context) : Decidable (Confined ctx) := inferInstanceAs (Decidable (_ ∨ _))

/-- An accepted PORT needs an IPv4 peer, one refused after its argument was read must find no
port stored, and an EPRT read to its end must name the peer. (A peer with a zero address is the
exception of the last two.) -/
def SafeTarget (ctx : Context) : TargetCommand → Prop
  | .port arg =>
    match scanPort arg with
    | none => True
    | some (front, port) =>
      if front = ctx.hostip.front ∧ 1024 ≤ port then ctx.family = .inet4
      else ctx.dataport = 0 ∨ (ctx.datafamily = ctx.family ∧ AtPeer ctx .zero)
  | .eprt arg =>
    match parseEprt pton arg with
    | .error _ => True
    | .ok (address, _) =>
      address.family = ctx.family ∧
        (AtPeer ctx (address.store ctx.dataip) ∨ AtPeer ctx .zero)

variable {pton user}

theorem doPort_ctx (denied : fxpIsDenied user) (arg : Text) (ctx : Context) :
    (doPort user arg ctx).ctx =
      match scanPort arg with
      | none => closePasv ctx
      | some (front, port) =>
        if front = ctx.hostip.front ∧ 1024 ≤ port then
          { closePasv ctx with
            dataip := ⟨front, ctx.dataip.back⟩, dataport := port, datafamily := .inet4 }
        else { closePasv ctx with dataip := .zero } := by
  simp only [doPort, Outcome.after_ctx, denied, true_and]
  split
  · rfl
  rename_i front port _
  by_cases same : front = ctx.hostip.front
  · by_cases high : 1024 ≤ port
    · simp [testFxp, closePasv, answer, same, high, Nat.not_lt.mpr high]
    · simp [testFxp, closePasv, answer, same, high, Nat.not_le.mp high]
  · simp [testFxp, closePasv, answer, same]

theorem doPort_confined_iff (denied : fxpIsDenied user) (arg : Text) (ctx : Context)
    (now : Confined ctx) :
    Confined (doPort user arg ctx).ctx ↔ SafeTarget pton ctx (.port arg) := by
  rw [doPort_ctx denied, SafeTarget]
  cases scanned : scanPort arg with
  | none => exact ⟨fun _ => trivial, fun _ => now⟩
  | some target =>
    obtain ⟨front, port⟩ := target
    by_cases accepted : front = ctx.hostip.front ∧ 1024 ≤ port
    · simp only [if_pos accepted, Confined, AtPeer, closePasv]
      have positive : port ≠ 0 := by omega
      cases ctx.family <;> simp [positive, accepted.1]
    · simp only [if_neg accepted]
      rfl

theorem doEprt_confined_iff (denied : fxpIsDenied user) (arg : Text) (ctx : Context)
    (now : Confined ctx) :
    Confined (doEprt pton user arg ctx).ctx ↔ SafeTarget pton ctx (.eprt arg) := by
  simp only [doEprt, SafeTarget, denied]
  cases parsed : parseEprt pton arg with
  | error reply => exact ⟨fun _ => trivial, fun _ => now⟩
  | ok target =>
    obtain ⟨address, tcpPort⟩ := target
    have := parseEprt_port parsed
    have positive : tcpPort ≠ 0 := by omega
    cases address with
    | inet4 bytes =>
      by_cases same : bytes = ctx.hostip.front
      · simp only [testFxp, closePasv, answer, Address.store, Address.family, same]
        cases family : ctx.family <;> simp [Confined, AtPeer, positive, family]
      · simp only [testFxp, closePasv, answer, Address.store, Address.family]
        cases family : ctx.family <;> simp [Confined, AtPeer, positive, family, same]
    | inet6 bytes =>
      by_cases same : bytes = ctx.hostip
      · simp only [testFxp, closePasv, answer, Address.store, Address.family, same]
        cases family : ctx.family <;> simp [Confined, AtPeer, positive, family]
      · simp only [testFxp, closePasv, answer, Address.store, Address.family]
        cases family : ctx.family <;> simp [Confined, AtPeer, positive, family, same]

end Target

/-- For a user without FXP, a sequence of PORT and EPRT commands keeps the data
target on the peer, in every state on the way, exactly when every one of them
is safe where it is given. -/
theorem target_confined_iff (pton : InetPton) (user : User) (commands : List TargetCommand)
    (ctx : Context) (denied : fxpIsDenied user) (fresh : ctx.dataport = 0) :
    Runs.Throughout (TargetCommand.run pton user) Confined ctx commands ↔
      Runs.Always (TargetCommand.run pton user) (SafeTarget pton) ctx commands := by
  refine Runs.throughout_iff_always _ _ _ ?_ commands ctx (Or.inl fresh)
  intro s command now
  cases command with
  | port arg => exact doPort_confined_iff denied arg s now
  | eprt arg => exact doEprt_confined_iff denied arg s now

def guardedUser : User :=
  { uid := 1, username := "bob".toList, rootpath := "/srv".toList, flags := ['F'],
    userperms := 0xffffffff }

def guardedContext : Context :=
  { userid := 1, currentpath := .root, hostip := ⟨octets 10 0 0 1, Ip.zero.back⟩ }

/-- An `inet_pton` that knows three addresses. -/
def fewAddresses : InetPton :=
  { inet4 := fun text =>
      if text = "10.0.0.1".toList then some (octets 10 0 0 1)
      else if text = "10.0.0.2".toList then some (octets 10 0 0 2) else none
    inet6 := fun text => if text = "::".toList then some .zero else none }

theorem target_confined_iff_own_address :
    Confined (TargetCommand.run fewAddresses guardedUser guardedContext
      (.port "10,0,0,1,4,0".toList)) :=
  (target_confined_iff fewAddresses guardedUser [.port "10,0,0,1,4,0".toList] guardedContext
    (by decide) rfl).mpr ⟨(rfl : guardedContext.family = .inet4), trivial⟩
    [.port "10,0,0,1,4,0".toList] List.prefix_rfl

/-- After an accepted PORT, a refused one leaves 0.0.0.0 with the old port. -/
theorem refused_port_keeps_target :
    fxpIsDenied guardedUser ∧ guardedContext.dataport = 0 ∧
      ¬Confined ([TargetCommand.port "10,0,0,1,4,0".toList, .port "10,0,0,2,4,0".toList].foldl
        (TargetCommand.run fewAddresses guardedUser) guardedContext) := by
  decide

/-- The port of an accepted PORT is never below 1024. An accepted EPRT connects
to a port below 1024 exactly when the number it gives exceeds 65535 and its low
16 bits are below 1024. -/
theorem accepted_port_iff (pton : InetPton) (user : User) (arg : Text) (ctx : Context) :
    ((doPort user arg ctx).ret = .ok → 1024 ≤ connectPort (doPort user arg ctx).ctx) ∧
      ((doEprt pton user arg ctx).ret = .ok →
        (1024 ≤ connectPort (doEprt pton user arg ctx).ctx ↔
          ∀ written, eprtPort arg = some written →
            ¬(65536 ≤ written % 2 ^ 32 ∧ written % 65536 < 1024))) := by
  constructor
  · intro accepted
    obtain ⟨high, small⟩ := doPort_accepted accepted
    rw [connectPort, Nat.mod_eq_of_lt small]
    exact high
  · intro accepted
    obtain ⟨written, named, same, high⟩ := doEprt_accepted accepted
    have low : written % 2 ^ 32 % 65536 = written % 65536 := Nat.mod_mod_of_dvd _ (by decide)
    rw [connectPort, same, named, low]
    constructor
    · rintro safe _ same' _
      cases same'
      omega
    · intro safe
      have either := safe written rfl
      omega

theorem accepted_port_iff_high :
    1024 ≤ connectPort (doEprt fewAddresses guardedUser "|1|10.0.0.1|4000|".toList
      guardedContext).ctx :=
  ((accepted_port_iff fewAddresses guardedUser "|1|10.0.0.1|4000|".toList guardedContext).2
    (by decide)).mpr (by
      intro written named
      cases named
      decide)

/-- EPRT accepts port 65616, and the connection goes to port 80. -/
theorem eprt_reaches_port_80 :
    (doEprt fewAddresses guardedUser "|1|10.0.0.1|65616|".toList guardedContext).ret = .ok ∧
      connectPort (doEprt fewAddresses guardedUser "|1|10.0.0.1|65616|".toList
        guardedContext).ctx = 80 := by
  decide

end Wzdftpd
