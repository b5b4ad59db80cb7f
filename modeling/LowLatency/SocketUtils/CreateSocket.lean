import LowLatency.SocketUtils.Calls
import Mathlib.Data.Finset.Basic
import Mathlib.Data.List.Basic
import Mathlib.Data.Set.Finite.Basic
import Mathlib.Order.Nat

namespace LowLatency.SocketUtils

def maxTCPServerBacklog : ℕ := 1024

inductive SockType
  | stream
  | dgram
  deriving DecidableEq

inductive Protocol
  | tcp
  | udp
  deriving DecidableEq

structure Mode where
  isUdp : Bool
  isBlocking : Bool
  isListening : Bool
  needsSOTimestamp : Bool

/-- An interface in the list of `getifaddrs()`. `addr` is its address, if it has
one: the family and what `getnameinfo()` makes of it. -/
structure Ifaddrs where
  name : String
  addr : Option (ℕ × Option String)

def afInet : ℕ := 2

def getIfaceIP (getifaddrs : Option (List Ifaddrs)) (iface : String) : String :=
  if iface = "" then ""
  else
    match getifaddrs with
    | none => ""
    | some interfaces => search interfaces
where
  search : List Ifaddrs → String
    | [] => ""
    | current :: rest =>
      match current.addr with
      | none => search rest
      | some (family, nameinfo) =>
        if family ≠ afInet then search rest
        else if iface ≠ current.name then search rest
        else nameinfo.getD ""

structure Hints where
  family : ℕ
  socktype : SockType
  protocol : Protocol
  passive : Bool
  numericServ : Bool

def hints (m : Mode) : Hints where
  family := afInet
  socktype := if m.isUdp then .dgram else .stream
  protocol := if m.isUdp then .udp else .tcp
  passive := m.isListening
  numericServ := true

variable {Addr : Type}

structure AddrInfo (Addr : Type) where
  family : ℕ
  socktype : SockType
  protocol : Protocol
  addr : Addr

/-- What the system calls answer while one candidate is tried. A descriptor may
be born with `O_NONBLOCK`, which is what `F_GETFL` then reports. -/
structure Outcomes where
  socket : Bool
  nonBlocking : Bool
  getFlags : Bool
  setFlags : Bool
  noDelay : Bool
  connect : Option Errno
  reuseAddr : Bool
  bind : Bool
  listen : Bool
  timestamp : Bool

structure Candidate (Addr : Type) where
  info : AddrInfo Addr
  calls : Outcomes

/-- What the kernel knows of an open descriptor. The serial number tells apart
the descriptors that had the same number one after the other. -/
structure Descriptor (Addr : Type) where
  serial : ℕ
  info : AddrInfo Addr
  nonBlocking : Bool
  noDelay : Bool
  connected : Option Addr
  reuseAddr : Bool
  bound : Option Addr
  backlog : Option ℕ
  timestamp : Bool

inductive Event (Addr : Type)
  | opened (info : AddrInfo Addr) (serial fd : ℕ)
  | refused (info : AddrInfo Addr)
  | closed (serial : ℕ)
  | badDescriptor (fd : ℕ)
  | freed
  | logged (format value : String)

structure Kernel (Addr : Type) where
  table : List (ℕ × Descriptor Addr)
  serial : ℕ
  log : List (Event Addr)

/-- How the kernel numbers a new descriptor: any number that is not in use. -/
structure Numbering (Addr : Type) where
  next : Kernel Addr → ℕ
  fresh : ∀ k, next k ∉ k.table.map Prod.fst

instance : Inhabited (Numbering Addr) where
  default :=
    { next := fun k ↦ Nat.find (Infinite.exists_notMem_finset (k.table.map Prod.fst).toFinset)
      fresh := by
        intro k
        simpa using Nat.find_spec (Infinite.exists_notMem_finset (k.table.map Prod.fst).toFinset) }

section SystemCalls

def Kernel.record (k : Kernel Addr) (e : Event Addr) : Kernel Addr :=
  { k with log := k.log ++ [e] }

def Kernel.socket (d : Numbering Addr) (c : Candidate Addr) (k : Kernel Addr) :
    Kernel Addr × Option ℕ :=
  if c.calls.socket then
    ({ table := (d.next k, ⟨k.serial, c.info, c.calls.nonBlocking, false, none, false, none, none,
          false⟩) :: k.table
       serial := k.serial + 1
       log := k.log ++ [.opened c.info k.serial (d.next k)] }, some (d.next k))
  else (k.record (.refused c.info), none)

def Kernel.close (fd : ℕ) (k : Kernel Addr) : Kernel Addr :=
  match k.table.lookup fd with
  | none => k.record (.badDescriptor fd)
  | some s => { k with table := k.table.filter (·.1 ≠ fd) }.record (.closed s.serial)

/-- Calls on a descriptor: what they return, and what they make of it. They
cannot replace it. -/
structure Setting (Addr : Type) where
  apply : Descriptor Addr → Bool × Descriptor Addr
  serial : ∀ s, (apply s).2.serial = s.serial

def Kernel.call (fd : ℕ) (f : Setting Addr) (k : Kernel Addr) : Kernel Addr × Bool :=
  match k.table.lookup fd with
  | none => (k.record (.badDescriptor fd), false)
  | some s =>
    ({ k with table := k.table.map fun p ↦ if p.1 = fd then (fd, (f.apply s).2) else p },
      (f.apply s).1)

namespace Setting

variable (calls : Outcomes) (addr : Addr)

def nonBlocking : Setting Addr where
  apply s :=
    let (ok, written) :=
      setNonBlocking ⟨if calls.getFlags then some s.nonBlocking else none, calls.setFlags⟩
    (ok, { s with nonBlocking := written.getD s.nonBlocking })
  serial _ := rfl

def noDelay : Setting Addr where
  apply s :=
    let (ok, written) := setNoDelay calls.noDelay
    (ok, { s with noDelay := written.getD s.noDelay })
  serial _ := rfl

def connect : Setting Addr where
  apply s := (calls.connect.all wouldBlock, { s with connected := some addr })
  serial _ := rfl

def reuseAddr : Setting Addr where
  apply s :=
    let (ok, written) := setOption calls.reuseAddr true
    (ok, { s with reuseAddr := written.getD s.reuseAddr })
  serial _ := rfl

def bind : Setting Addr where
  apply s := (calls.bind, { s with bound := if calls.bind then some addr else s.bound })
  serial _ := rfl

def listen : Setting Addr where
  apply s := (calls.listen,
    { s with backlog := if calls.listen then some maxTCPServerBacklog else s.backlog })
  serial _ := rfl

def timestamp : Setting Addr where
  apply s :=
    let (ok, written) := setSOTimestamp calls.timestamp
    (ok, { s with timestamp := written.getD s.timestamp })
  serial _ := rfl

end Setting

end SystemCalls

section CreateSocket

inductive Exit
  | next
  | done

/-- `if (required && !step(fd)) { ::close(fd); fd = -1; continue; }` -/
def require (fd : ℕ) (required : Bool) (step : Kernel Addr → Kernel Addr × Bool)
    (rest : Kernel Addr → Exit × Kernel Addr × Option ℕ) (k : Kernel Addr) :
    Exit × Kernel Addr × Option ℕ :=
  if required then
    match step k with
    | (k, true) => rest k
    | (k, false) => (.next, k.close fd, none)
  else rest k

def attempt (d : Numbering Addr) (m : Mode) (c : Candidate Addr) (k : Kernel Addr) :
    Exit × Kernel Addr × Option ℕ :=
  match k.socket d c with
  | (k, none) => (.next, k, none)
  | (k, some fd) =>
    k |>
    (require fd (!m.isBlocking) (Kernel.call fd (.nonBlocking c.calls)) <|
    require fd (!m.isUdp) (Kernel.call fd (.noDelay c.calls)) <|
    require fd (!m.isListening) (Kernel.call fd (.connect c.calls c.info.addr)) <|
    require fd m.isListening (Kernel.call fd (.reuseAddr c.calls)) <|
    require fd m.isListening (Kernel.call fd (.bind c.calls c.info.addr)) <|
    require fd (m.isListening && !m.isUdp) (Kernel.call fd (.listen c.calls)) <|
    require fd m.needsSOTimestamp (Kernel.call fd (.timestamp c.calls))
      fun k ↦ (.done, k, some fd))

def tryEach (d : Numbering Addr) (m : Mode) :
    List (Candidate Addr) → Kernel Addr × Option ℕ → Kernel Addr × Option ℕ
  | [], kfd => kfd
  | c :: cs, (k, _) =>
    match attempt d m c k with
    | (.done, k, fd) => (k, fd)
    | (.next, k, fd) => tryEach d m cs (k, fd)

structure Env (Addr : Type) where
  getifaddrs : Option (List Ifaddrs)
  getaddrinfo : String → String → Hints → Except ℤ (List (Candidate Addr))
  gaiStrerror : ℤ → String

def createSocket (d : Numbering Addr) (env : Env Addr) (targetIp iface : String) (port : ℤ)
    (m : Mode) (k : Kernel Addr) : Kernel Addr × Option ℕ :=
  let ip := if targetIp = "" then getIfaceIP env.getifaddrs iface else targetIp
  if ip = "" then
    (k.record (.logged "Could not find IPv4 address for interface:%\n" iface), none)
  else
    match env.getaddrinfo ip (toString port) (hints m) with
    | .error rc => (k.record (.logged "getaddrinfo failed:%\n" (env.gaiStrerror rc)), none)
    | .ok result =>
      let (k, fd) := tryEach d m result (k, none)
      (k.record .freed, fd)

end CreateSocket

section Attempt

/-- Every system call that the flags require succeeds for the candidate.
`O_NONBLOCK` may be there already, and a connection may be on its way. -/
def Candidate.works (m : Mode) (c : Candidate Addr) : Bool :=
  c.calls.socket &&
  (m.isBlocking || c.calls.getFlags && (c.calls.nonBlocking || c.calls.setFlags)) &&
  (m.isUdp || c.calls.noDelay) &&
  (m.isListening || decide (c.calls.connect ∈
    [none, some .eagain, some .ewouldblock, some .einprogress])) &&
  (!m.isListening || c.calls.reuseAddr && c.calls.bind && (m.isUdp || c.calls.listen)) &&
  (!m.needsSOTimestamp || c.calls.timestamp)

def Candidate.configured (m : Mode) (c : Candidate Addr) (serial : ℕ) : Descriptor Addr where
  serial := serial
  info := c.info
  nonBlocking := !m.isBlocking || c.calls.nonBlocking
  noDelay := !m.isUdp
  connected := if m.isListening then none else some c.info.addr
  reuseAddr := m.isListening
  bound := if m.isListening then some c.info.addr else none
  backlog := if m.isListening && !m.isUdp then some maxTCPServerBacklog else none
  timestamp := m.needsSOTimestamp

def Kernel.holding (k : Kernel Addr) (fd : ℕ) (s : Descriptor Addr) : Kernel Addr :=
  { k with table := (fd, s) :: k.table }

variable {k : Kernel Addr} {fd : ℕ} {s : Descriptor Addr}

theorem close_holding (hfd : fd ∉ k.table.map Prod.fst) :
    (k.holding fd s).close fd = k.record (.closed s.serial) := by
  have hrest : k.table.filter (·.1 ≠ fd) = k.table := by
    apply List.filter_eq_self.mpr
    intro p hp
    exact decide_eq_true fun h ↦ hfd (List.mem_map.mpr ⟨p, hp, h⟩)
  have hlookup : (k.holding fd s).table.lookup fd = some s := List.lookup_cons_self
  rw [Kernel.close, hlookup]
  simp only [Kernel.holding]
  rw [List.filter_cons_of_neg (by simp), hrest]

theorem call_holding (hfd : fd ∉ k.table.map Prod.fst) (f : Setting Addr) :
    (k.holding fd s).call fd f = (k.holding fd (f.apply s).2, (f.apply s).1) := by
  have hrest : k.table.map (fun p ↦ if p.1 = fd then (fd, (f.apply s).2) else p) = k.table := by
    refine (List.map_congr_left ?_).trans (List.map_id k.table)
    intro p hp
    exact if_neg fun h ↦ hfd (List.mem_map.mpr ⟨p, hp, h⟩)
  have hlookup : (k.holding fd s).table.lookup fd = some s := List.lookup_cons_self
  rw [Kernel.call, hlookup]
  simp only [Kernel.holding]
  rw [List.map_cons, hrest, if_pos rfl]

def Setting.behind (f : Setting Addr) (b : Bool) (s : Descriptor Addr) : Descriptor Addr :=
  if b then (f.apply s).2 else s

theorem Setting.behind_serial (f : Setting Addr) (b : Bool) : (f.behind b s).serial = s.serial := by
  cases b with
  | false => rfl
  | true => exact f.serial s

theorem require_holding (hfd : fd ∉ k.table.map Prod.fst) (b : Bool) (f : Setting Addr)
    (rest : Kernel Addr → Exit × Kernel Addr × Option ℕ) :
    require fd b (Kernel.call fd f) rest (k.holding fd s) =
      if b = true → (f.apply s).1 = true then rest (k.holding fd (f.behind b s))
      else (.next, k.record (.closed s.serial), none) := by
  unfold require
  rw [call_holding hfd]
  cases b with
  | false => simp [Setting.behind]
  | true =>
    cases hok : (f.apply s).1 with
    | false => simp [close_holding hfd, f.serial]
    | true => simp [Setting.behind]

namespace Setting

variable (calls : Outcomes) (addr : Addr) (s : Descriptor Addr)

theorem nonBlocking_apply : (nonBlocking calls).apply s =
    (calls.getFlags && (s.nonBlocking || calls.setFlags),
      { s with nonBlocking := s.nonBlocking || calls.getFlags && calls.setFlags }) := by
  obtain ⟨serial, info, flag⟩ := s
  unfold nonBlocking setNonBlocking
  cases calls.getFlags <;> cases flag <;> cases calls.setFlags <;> rfl

theorem noDelay_apply : (noDelay calls).apply s =
    (calls.noDelay, { s with noDelay := s.noDelay || calls.noDelay }) := by
  unfold noDelay setNoDelay setOption
  cases calls.noDelay <;> simp

theorem reuseAddr_apply : (reuseAddr calls).apply s =
    (calls.reuseAddr, { s with reuseAddr := s.reuseAddr || calls.reuseAddr }) := by
  unfold reuseAddr setOption
  cases calls.reuseAddr <;> simp

theorem timestamp_apply : (timestamp calls).apply s =
    (calls.timestamp, { s with timestamp := s.timestamp || calls.timestamp }) := by
  unfold timestamp setSOTimestamp setOption
  cases calls.timestamp <;> simp

theorem connect_apply : (connect calls addr).apply s =
    (decide (calls.connect ∈ [none, some .eagain, some .ewouldblock, some .einprogress]),
      { s with connected := some addr }) := by
  unfold connect
  rcases calls.connect with _ | e
  · rfl
  · cases e <;> rfl

end Setting

def Kernel.opened (k : Kernel Addr) (d : Numbering Addr) (c : Candidate Addr) : Kernel Addr where
  table := k.table
  serial := k.serial + 1
  log := k.log ++ [.opened c.info k.serial (d.next k)]

theorem attempt_refused (d : Numbering Addr) (m : Mode) {c : Candidate Addr}
    (hc : c.calls.socket = false) :
    attempt d m c k = (.next, k.record (.refused c.info), none) := by
  simp [attempt, Kernel.socket, hc]

theorem attempt_opened (d : Numbering Addr) (m : Mode) {c : Candidate Addr}
    (hc : c.calls.socket = true) :
    attempt d m c k =
      if c.works m then
        (.done, (k.opened d c).holding (d.next k) (c.configured m k.serial), some (d.next k))
      else (.next, (k.opened d c).record (.closed k.serial), none) := by
  have hfd : d.next k ∉ (k.opened d c).table.map Prod.fst := d.fresh k
  have hsocket : k.socket d c = ((k.opened d c).holding (d.next k)
      ⟨k.serial, c.info, c.calls.nonBlocking, false, none, false, none, none, false⟩,
      some (d.next k)) := by
    rw [Kernel.socket, if_pos hc]
    rfl
  rw [attempt, hsocket]
  -- All seven exits close the same descriptor, so the checks are one conjunction.
  simp only [require_holding hfd, Setting.behind_serial, ← ite_and]
  refine ite_congr (propext ?_) (fun hw ↦ ?_) fun _ ↦ rfl
  · rcases m with ⟨_ | _, _ | _, _ | _, _ | _⟩ <;>
      simp [Candidate.works, hc, and_assoc, Setting.nonBlocking_apply, Setting.noDelay_apply,
        Setting.connect_apply, Setting.reuseAddr_apply, Setting.bind, Setting.listen,
        Setting.timestamp_apply]
  · congr 3
    rcases m with ⟨_ | _, _ | _, _ | _, _ | _⟩ <;>
      simp only [Candidate.works, Bool.and_eq_true, Bool.or_eq_true, Bool.not_true, Bool.not_false,
        Bool.true_or, Bool.false_or, Bool.and_true] at hw <;>
      simp [hw, Setting.behind, Candidate.configured, Setting.nonBlocking_apply,
        Setting.noDelay_apply, Setting.connect_apply, Setting.reuseAddr_apply, Setting.bind,
        Setting.listen, Setting.timestamp_apply]

end Attempt

section Loop

def tried (log : List (Event Addr)) : List (AddrInfo Addr) :=
  log.filterMap fun
    | .opened info _ _ | .refused info => some info
    | _ => none

def Event.closes (serial : ℕ) : Event Addr → Bool
  | .closed serial' => serial' = serial
  | _ => false

/-- Whatever was opened was closed exactly once, under serial numbers from `n`
on, and no other call was made on a descriptor that is not open. -/
structure Clean (n : ℕ) (log : List (Event Addr)) : Prop where
  once : ∀ info serial fd, .opened info serial fd ∈ log →
    n ≤ serial ∧ log.countP (Event.closes serial) = 1
  later : ∀ serial, .closed serial ∈ log → n ≤ serial
  sound : ∀ fd, .badDescriptor fd ∉ log
  held : .freed ∉ log

theorem Clean.nil (n : ℕ) : Clean n ([] : List (Event Addr)) where
  once := by simp
  later := by simp
  sound := by simp
  held := by simp

theorem Clean.refused {n : ℕ} {log : List (Event Addr)} (h : Clean n log) (info : AddrInfo Addr) :
    Clean n (.refused info :: log) where
  once := by simpa [Event.closes] using h.once
  later := by simpa using h.later
  sound := by simpa using h.sound
  held := by simpa using h.held

theorem Clean.notMem_closed {n serial : ℕ} {log : List (Event Addr)} (h : Clean n log)
    (hs : serial < n) : log.countP (Event.closes serial) = 0 := by
  rw [List.countP_eq_zero]
  intro e he hc
  cases e with
  | closed serial' =>
    have hle := h.later serial' he
    have heq : serial' = serial := by simpa [Event.closes] using hc
    omega
  | opened | refused | badDescriptor | freed | logged => cases hc

theorem Clean.discarded {n : ℕ} {log : List (Event Addr)} (h : Clean (n + 1) log)
    (info : AddrInfo Addr) (fd : ℕ) : Clean n (.opened info n fd :: .closed n :: log) where
  once info' serial fd' he := by
    rw [List.countP_cons_of_neg (by simp [Event.closes])]
    rcases List.mem_cons.mp he with he | he
    · obtain rfl : serial = n := by cases he; rfl
      rw [List.countP_cons_of_pos (by simp [Event.closes]), h.notMem_closed (Nat.lt_succ_self _)]
      exact ⟨le_rfl, rfl⟩
    · have hin : .opened info' serial fd' ∈ log := by simpa using he
      obtain ⟨hle, honce⟩ := h.once info' serial fd' hin
      rw [List.countP_cons_of_neg (by simp [Event.closes]; omega)]
      exact ⟨by omega, honce⟩
  later serial he := by
    have hin : serial = n ∨ .closed serial ∈ log := by simpa using he
    rcases hin with rfl | hin
    · exact le_rfl
    · exact Nat.le_of_succ_le (h.later serial hin)
  sound := by simpa using h.sound
  held := by simpa using h.held

structure Searched (m : Mode) (cs : List (Candidate Addr)) (k : Kernel Addr)
    (new : List (Event Addr)) (r : Kernel Addr × Option ℕ) : Prop where
  log : r.1.log = k.log ++ new
  order : tried new =
    (cs.takeWhile (fun c ↦ !c.works m) ++ (cs.find? (Candidate.works m)).toList).map Candidate.info
  chosen : ∀ c, cs.find? (Candidate.works m) = some c → ∃ earlier serial fd,
    new = earlier ++ [.opened c.info serial fd] ∧ Clean k.serial earlier ∧
    k.serial ≤ serial ∧ .closed serial ∉ earlier ∧ r.2 = some fd ∧
    r.1.table = (fd, c.configured m serial) :: k.table
  exhausted : cs.find? (Candidate.works m) = none →
    Clean k.serial new ∧ r.2 = none ∧ r.1.table = k.table

theorem tried_append (log log' : List (Event Addr)) :
    tried (log ++ log') = tried log ++ tried log' :=
  List.filterMap_append

theorem Searched.skip {m : Mode} {cs : List (Candidate Addr)} {k k' : Kernel Addr}
    {new es : List (Event Addr)} {r : Kernel Addr × Option ℕ} (h : Searched m cs k' new r)
    {c : Candidate Addr} (hc : c.works m = false) (hlog : k'.log = k.log ++ es)
    (htable : k'.table = k.table) (hserial : k.serial ≤ k'.serial) (htried : tried es = [c.info])
    (hclosed : ∀ serial, .closed serial ∈ es → serial < k'.serial)
    (hclean : ∀ log, Clean k'.serial log → Clean k.serial (es ++ log)) :
    Searched m (c :: cs) k (es ++ new) r where
  log := by rw [h.log, hlog, List.append_assoc]
  order := by
    rw [tried_append, htried, h.order, List.find?_cons_of_neg (by simp [hc]),
      List.takeWhile_cons_of_pos (by simp [hc])]
    rfl
  chosen c' hc' := by
    rw [List.find?_cons_of_neg (by simp [hc])] at hc'
    obtain ⟨earlier, serial, fd, rfl, hearlier, hle, hnot, hfd, htab⟩ := h.chosen c' hc'
    refine ⟨es ++ earlier, serial, fd, (List.append_assoc ..).symm, hclean _ hearlier, by omega,
      ?_, hfd, htable ▸ htab⟩
    rw [List.mem_append, not_or]
    exact ⟨fun he ↦ absurd (hclosed serial he) (by omega), hnot⟩
  exhausted hnone := by
    rw [List.find?_cons_of_neg (by simp [hc])] at hnone
    obtain ⟨hnew, hfd, htab⟩ := h.exhausted hnone
    exact ⟨hclean _ hnew, hfd, htable ▸ htab⟩

theorem tryEach_next {d : Numbering Addr} {m : Mode} {c : Candidate Addr} {k k' : Kernel Addr}
    (h : attempt d m c k = (.next, k', none)) (cs : List (Candidate Addr)) (fd : Option ℕ) :
    tryEach d m (c :: cs) (k, fd) = tryEach d m cs (k', none) := by
  rw [tryEach, h]

theorem tryEach_done {d : Numbering Addr} {m : Mode} {c : Candidate Addr} {k k' : Kernel Addr}
    {fd : Option ℕ} (h : attempt d m c k = (.done, k', fd)) (cs : List (Candidate Addr))
    (fd' : Option ℕ) : tryEach d m (c :: cs) (k, fd') = (k', fd) := by
  rw [tryEach, h]

theorem tryEach_searched (d : Numbering Addr) (m : Mode) (cs : List (Candidate Addr))
    (k : Kernel Addr) : ∃ new, Searched m cs k new (tryEach d m cs (k, none)) := by
  induction cs generalizing k with
  | nil =>
    rw [tryEach]
    exact ⟨[], ⟨(List.append_nil _).symm, rfl, by simp, fun _ ↦ ⟨.nil _, rfl, rfl⟩⟩⟩
  | cons c cs ih =>
    cases hc : c.calls.socket with
    | false =>
      have hw : c.works m = false := by simp [Candidate.works, hc]
      rw [tryEach_next (attempt_refused d m hc)]
      obtain ⟨new, hnew⟩ := ih (k.record (.refused c.info))
      refine ⟨[.refused c.info] ++ new, hnew.skip hw rfl rfl le_rfl rfl (by simp) ?_⟩
      intro log hlog
      exact hlog.refused c.info
    | true =>
      have hattempt := attempt_opened d m (k := k) hc
      cases hw : c.works m with
      | false =>
        rw [if_neg (by simp [hw])] at hattempt
        rw [tryEach_next hattempt]
        obtain ⟨new, hnew⟩ := ih ((k.opened d c).record (.closed k.serial))
        have hlog : ((k.opened d c).record (.closed k.serial)).log =
            k.log ++ [.opened c.info k.serial (d.next k), .closed k.serial] :=
          List.append_assoc k.log _ _
        refine ⟨_, hnew.skip hw hlog rfl (Nat.le_succ _) rfl ?_ ?_⟩
        · intro serial hserial
          have heq : serial = k.serial := by simpa using hserial
          rw [heq]
          exact Nat.lt_succ_self k.serial
        · intro log hlog
          exact hlog.discarded c.info (d.next k)
      | true =>
        rw [if_pos hw] at hattempt
        rw [tryEach_done hattempt]
        refine ⟨[.opened c.info k.serial (d.next k)], ⟨rfl, ?_, ?_, ?_⟩⟩
        · rw [List.takeWhile_cons_of_neg (by simp [hw]), List.find?_cons_of_pos hw]
          rfl
        · intro c' hc'
          rw [List.find?_cons_of_pos hw, Option.some.injEq] at hc'
          subst hc'
          exact ⟨[], k.serial, d.next k, rfl, .nil _, le_rfl, by simp, rfl, rfl⟩
        · intro hnone
          rw [List.find?_cons_of_pos hw] at hnone
          cases hnone

theorem Searched.none_iff {m : Mode} {cs : List (Candidate Addr)} {k k' : Kernel Addr}
    {new : List (Event Addr)} {fd : Option ℕ} (h : Searched m cs k new (k', fd)) :
    fd = none ↔ ∀ c ∈ cs, c.works m = false := by
  cases hfind : cs.find? (Candidate.works m) with
  | none => exact iff_of_true (h.exhausted hfind).2.1 (by simpa using hfind)
  | some c =>
    obtain ⟨_, _, fd', _, _, _, _, hfd, _⟩ := h.chosen c hfind
    apply iff_of_false (fun hn ↦ by cases hfd.symm.trans hn)
    intro hall
    have hw := List.find?_some hfind
    rw [hall c (List.mem_of_find?_eq_some hfind)] at hw
    cases hw

/-- The list of candidates that the address of the call resolves to. -/
def resolved (env : Env Addr) (targetIp iface : String) (port : ℤ) (m : Mode) :
    Option (List (Candidate Addr)) :=
  let ip := if targetIp = "" then getIfaceIP env.getifaddrs iface else targetIp
  if ip = "" then none else (env.getaddrinfo ip (toString port) (hints m)).toOption

/-- `createSocket()` returns the descriptor of the first candidate that works,
with every option it needs, closes what it opened before exactly once, tries no
candidate after it, and frees the list once if there is one. -/
theorem createSocket_picks_first (d : Numbering Addr) (env : Env Addr) (targetIp iface : String)
    (port : ℤ) (m : Mode) (k : Kernel Addr) :
    (∀ cs, resolved env targetIp iface port m = some cs → ∃ new k' fd,
      Searched m cs k new (k', fd) ∧
      (fd = none ↔ ∀ c ∈ cs, c.works m = false) ∧
      createSocket d env targetIp iface port m k = (k'.record .freed, fd)) ∧
    (resolved env targetIp iface port m = none → ∃ format value,
      createSocket d env targetIp iface port m k = (k.record (.logged format value), none)) := by
  unfold resolved createSocket
  generalize (if targetIp = "" then getIfaceIP env.getifaddrs iface else targetIp) = ip
  by_cases hip : ip = ""
  · simp only [hip, if_true]
    exact ⟨nofun, fun _ ↦ ⟨_, _, rfl⟩⟩
  · simp only [hip, if_false]
    cases env.getaddrinfo ip (toString port) (hints m) with
    | error rc => exact ⟨nofun, fun _ ↦ ⟨_, _, rfl⟩⟩
    | ok result =>
      refine ⟨?_, nofun⟩
      intro cs hcs
      obtain rfl : result = cs := Option.some.inj hcs
      obtain ⟨new, hnew⟩ := tryEach_searched d m result k
      exact ⟨new, _, _, hnew, hnew.none_iff, rfl⟩

end Loop

end LowLatency.SocketUtils
