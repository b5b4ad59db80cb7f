import LowLatency.Library.Handles
import LowLatency.TCPServer.Server
import Mathlib.Data.List.MinMax

namespace LowLatency.TCPServer

open Library.Handles SocketUtils TCPSocket Function

/-- The part of a server that is not its lists. -/
structure Resources where
  efd : ℤ
  memory : Ptr → Socket
  allocated : List ℕ
  openFds : List ℤ
  registered : List Registration
  fault : Bool
  badClose : Bool

@[simps]
def Server.resources (s : Server) : Resources :=
  ⟨s.efd, s.memory, s.allocated, s.openFds, s.registered, s.fault, s.badClose⟩

/-- The descriptor that the server itself (`none`) or a socket keeps. -/
def Resources.fd (r : Resources) : Option Ptr → ℤ
  | none => r.efd
  | some p => (r.memory p).fd

@[simp]
theorem Resources.fd_none (r : Resources) : r.fd none = r.efd := rfl

@[simp]
theorem Resources.fd_some (r : Resources) (p : Ptr) : r.fd (some p) = (r.memory p).fd := rfl

/-- Who can keep a descriptor: the server, its listener and the owned clients. -/
def holders (owners : Set Ptr) : Set (Option Ptr) := {h | ∀ p ∈ h, p = .listener ∨ p ∈ owners}

/-- Descriptors, registrations and client memory are accounted for, when the
clients that the server has to delete one day are `owners`. -/
structure Sound (owners : Set Ptr) (r : Resources) : Prop where
  owned_iff : ∀ p, p ∈ owners ↔ ∃ a ∈ r.allocated, p = .client a
  registered : ∀ e ∈ r.registered, 0 ≤ e.epfd ∧ e.epfd = r.efd ∧ 0 ≤ e.fd ∧
    e.fd = (r.memory e.ptr).fd ∧ (e.ptr = .listener ∨ e.ptr ∈ owners)
  kept : Kept (holders owners) r.fd r.openFds
  noFault : r.fault = false
  noBadClose : r.badClose = false
  efd_ge : -1 ≤ r.efd

theorem none_mem_holders (owners : Set Ptr) : none ∈ holders owners := by
  intro p hp
  cases hp

theorem some_mem_holders {owners : Set Ptr} {p : Ptr} :
    some p ∈ holders owners ↔ p = .listener ∨ p ∈ owners := by
  simp [holders]

theorem holders_insert (owners : Set Ptr) (p : Ptr) :
    holders (insert p owners) = insert (some p) (holders owners) := by
  ext h
  cases h with
  | none => simp [holders]
  | some q =>
    simp only [some_mem_holders, Set.mem_insert_iff, Option.some.injEq]
    tauto

theorem holders_erase {owners : Set Ptr} {p : Ptr} (hp : p ≠ .listener) :
    holders (owners \ {p}) = holders owners \ {some p} := by
  ext h
  cases h with
  | none => simp [holders]
  | some q =>
    simp only [some_mem_holders, Set.mem_sdiff, Set.mem_singleton_iff, Option.some.injEq]
    rcases eq_or_ne q p with rfl | hqp
    · simp [hp]
    · simp [hqp]

theorem unused_notMem (used : List ℕ) (hint : ℕ) : unused used hint ∉ used := by
  unfold unused
  split
  case isTrue =>
    intro hmem
    have hle : used.foldr max 0 + 1 ≤ used.foldr max 0 := List.le_max_of_le' 0 hmem le_rfl
    omega
  case isFalse hmem => exact hmem

namespace Server

variable (s : Server) (p : Ptr)

theorem newFd_nonneg (hint : ℕ) : 0 ≤ s.newFd hint := Int.natCast_nonneg _

theorem newFd_notMem (hint : ℕ) : s.newFd hint ∉ s.openFds := by
  intro hmem
  have := List.mem_map_of_mem (f := Int.toNat) hmem
  exact unused_notMem _ hint (by simpa only [newFd, Int.toNat_natCast] using this)

theorem place_set_memory (x : Socket) : ((place p).set x s).memory p = x := update_self ..

theorem place_set_elsewhere (x : Socket) {q : Ptr} (hq : q ≠ p) :
    ((place p).set x s).memory q = s.memory q := update_of_ne hq ..

theorem destroySocket_memory :
    (s.destroySocket p).memory = update s.memory p (s.memory p).destroy := by
  unfold destroySocket
  dsimp only
  split <;> rfl

theorem destroySocket_fd : ((s.destroySocket p).memory p).fd < 0 := by
  rw [destroySocket_memory, update_self, Socket.destroy]
  dsimp only
  split <;> omega

end Server

theorem Resources.fd_update (r : Resources) (p : Ptr) (socket : Socket) :
    { r with memory := update r.memory p socket }.fd = update r.fd (some p) socket.fd := by
  funext h
  cases h with
  | none => rfl
  | some q =>
    rcases eq_or_ne q p with rfl | hqp
    · simp [Resources.fd]
    · simp [Resources.fd, hqp]

namespace Sound

variable {owners : Set Ptr} {s : Server} {p : Ptr}

theorem live (h : Sound owners s.resources) (hp : some p ∈ holders owners) :
    s.live p = true := by
  rcases some_mem_holders.1 hp with rfl | hp
  · rfl
  · obtain ⟨a, ha, rfl⟩ := (h.owned_iff p).1 hp
    simpa [Server.live] using ha

theorem touch (h : Sound owners s.resources) (hp : some p ∈ holders owners) : s.touch p = s := by
  simp [Server.touch, h.live hp]

theorem ptr_ne_of_fd_neg (h : Sound owners s.resources) (hfd : (s.memory p).fd < 0)
    {e : Registration} (he : e ∈ s.registered) : e.ptr ≠ p := by
  rintro rfl
  have := h.registered e he
  simp only [Server.resources_memory] at this
  omega

theorem filter_registered (h : Sound owners s.resources) (hp : some p ∈ holders owners)
    (hfd : 0 ≤ (s.memory p).fd) :
    s.registered.filter (fun e ↦ e.epfd ≠ (s.memory p).fd ∧ e.fd ≠ (s.memory p).fd) =
      s.registered.filter (·.ptr ≠ p) := by
  refine List.filter_congr fun e he ↦ decide_eq_decide.2 ?_
  obtain ⟨h0, hepfd, hefd, hfd', hptr⟩ := h.registered e he
  have hne : e.epfd ≠ (s.memory p).fd := by
    intro heq
    have := h.kept.unique none (none_mem_holders owners) (some p) hp (h0.trans_eq hepfd)
      (hepfd.symm.trans heq)
    cases this
  constructor
  · rintro ⟨-, hne'⟩ rfl
    exact hne' hfd'
  · intro hptr'
    refine ⟨hne, fun heq ↦ hptr' ?_⟩
    have := h.kept.unique (some e.ptr) (some_mem_holders.2 hptr) (some p) hp (hefd.trans_eq hfd')
      (hfd'.symm.trans heq)
    exact Option.some.inj this

theorem destroySocket_eq (h : Sound owners s.resources) (hp : some p ∈ holders owners) :
    (s.destroySocket p).resources =
      { s.resources with
        memory := update s.memory p (s.memory p).destroy
        openFds := if 0 ≤ (s.memory p).fd then s.openFds.filter (· ≠ (s.memory p).fd) else s.openFds
        registered := s.registered.filter (·.ptr ≠ p) } := by
  unfold Server.destroySocket
  rw [h.touch hp]
  by_cases hfd : 0 ≤ (s.memory p).fd
  · have hopen : (s.memory p).fd ∈ s.openFds := h.kept.mem hp hfd
    rw [← h.filter_registered hp hfd]
    simp [Server.resources, Server.close, Server.emit, hfd, hopen]
  · have hall : s.registered.filter (·.ptr ≠ p) = s.registered :=
      List.filter_eq_self.2 fun e he ↦ decide_eq_true (h.ptr_ne_of_fd_neg (by omega) he)
    simp only [Server.resources, hfd, if_false, hall]

theorem destroySocket (h : Sound owners s.resources) (hp : some p ∈ holders owners) :
    Sound owners (s.destroySocket p).resources := by
  rw [h.destroySocket_eq hp]
  refine ⟨h.owned_iff, ?_, ?_, h.noFault, h.noBadClose, h.efd_ge⟩
  · intro e he
    obtain ⟨he, hptr⟩ := List.mem_filter.1 he
    have hptr : e.ptr ≠ p := of_decide_eq_true hptr
    simpa [hptr] using h.registered e he
  · have hfd := s.resources.fd_update p (s.memory p).destroy
    by_cases h0 : 0 ≤ (s.memory p).fd
    · rw [show (s.memory p).destroy.fd = -1 from if_pos h0] at hfd
      rw [if_pos h0]
      exact hfd ▸ h.kept.release hp h0
    · rw [show (s.memory p).destroy.fd = (s.memory p).fd from if_neg h0] at hfd
      rw [if_neg h0]
      exact hfd ▸ h.kept.reset (not_le.1 h0) (not_le.1 h0)

theorem registered_ptr (h : Sound owners s.resources) {e : Registration} (he : e ∈ s.registered) :
    some e.ptr ∈ holders owners :=
  some_mem_holders.2 (h.registered e he).2.2.2.2

theorem set (h : Sound owners s.resources) {socket : Socket} (hfd : socket.fd = (s.memory p).fd) :
    Sound owners ((Server.place p).set socket s).resources := by
  have hmem : ∀ q, (update s.memory p socket q).fd = (s.memory q).fd := by
    intro q
    rcases eq_or_ne q p with rfl | hq
    · rw [update_self, hfd]
    · rw [update_of_ne hq]
  refine ⟨h.owned_iff, ?_, h.kept.congr ?_, h.noFault, h.noBadClose, h.efd_ge⟩
  · intro e he
    obtain ⟨h0, hepfd, hefd, hfd', hptr⟩ := h.registered e he
    exact ⟨h0, hepfd, hefd, hfd'.trans (hmem e.ptr).symm, hptr⟩
  · intro i _
    cases i with
    | none => rfl
    | some q => exact hmem q

theorem reset (h : Sound owners s.resources) (hfd : (s.memory p).fd < 0) {socket : Socket}
    (hsocket : socket.fd < 0) : Sound owners ((Server.place p).set socket s).resources := by
  refine ⟨h.owned_iff, ?_, ?_, h.noFault, h.noBadClose, h.efd_ge⟩
  · intro e he
    have hptr : e.ptr ≠ p := h.ptr_ne_of_fd_neg hfd he
    simpa [Server.place, hptr] using h.registered e he
  · exact s.resources.fd_update p socket ▸ h.kept.reset hfd hsocket

theorem acquire (h : Sound owners s.resources) (hp : some p ∈ holders owners)
    (hfd : (s.memory p).fd < 0) {socket : Socket} {fd : ℤ} (hsocket : socket.fd = fd)
    (h0 : 0 ≤ fd) (hnew : fd ∉ s.openFds) :
    Sound owners { s.resources with
      memory := update s.memory p socket
      openFds := fd :: s.openFds } := by
  refine ⟨h.owned_iff, ?_, ?_, h.noFault, h.noBadClose, h.efd_ge⟩
  · intro e he
    have hptr : e.ptr ≠ p := h.ptr_ne_of_fd_neg hfd he
    simpa [hptr] using h.registered e he
  · have hupdate := s.resources.fd_update p socket
    rw [hsocket] at hupdate
    exact hupdate ▸ h.kept.acquire hp hfd h0 hnew

theorem connectSocket (h : Sound owners s.resources) (hp : some p ∈ holders owners)
    (created : Option ℕ) : Sound owners (s.connectSocket p created).resources := by
  have hd := h.destroySocket hp
  have hfd := s.destroySocket_fd p
  cases created with
  | none => exact hd.reset hfd (Int.negSucc_lt_zero 0)
  | some hint =>
    exact hd.acquire hp hfd rfl (Server.newFd_nonneg _ hint) (Server.newFd_notMem _ hint)

theorem drop {a : ℕ} (h : Sound owners s.resources) (hfd : (s.memory (.client a)).fd < 0) :
    Sound (owners \ {.client a})
      { s.resources with allocated := s.allocated.filter (· ≠ a) } := by
  refine ⟨?_, ?_, ?_, h.noFault, h.noBadClose, h.efd_ge⟩
  · intro p
    simp only [Set.mem_sdiff, Set.mem_singleton_iff, h.owned_iff, List.mem_filter,
      decide_eq_true_eq]
    constructor
    · rintro ⟨⟨b, hb, rfl⟩, hne⟩
      exact ⟨b, ⟨hb, fun hba ↦ hne (by rw [hba])⟩, rfl⟩
    · rintro ⟨b, ⟨hb, hne⟩, rfl⟩
      exact ⟨⟨b, hb, rfl⟩, fun heq ↦ hne (Ptr.client.inj heq)⟩
  · intro e he
    obtain ⟨h0, hepfd, hefd, hfd', hptr⟩ := h.registered e he
    exact ⟨h0, hepfd, hefd, hfd', hptr.imp_right fun hmem ↦ ⟨hmem, h.ptr_ne_of_fd_neg hfd he⟩⟩
  · rw [holders_erase (by nofun)]
    exact h.kept.erase hfd

theorem deleteSocket (h : Sound owners s.resources) (hp : p ∈ owners) :
    Sound (owners \ {p}) (s.deleteSocket p).resources := by
  obtain ⟨a, ha, rfl⟩ := (h.owned_iff p).1 hp
  have hp' : some (Ptr.client a) ∈ holders owners := some_mem_holders.2 (.inr hp)
  have hfd := s.destroySocket_fd (.client a)
  exact (h.destroySocket hp').drop hfd

theorem epollAdd (h : Sound owners s.resources) (hp : some p ∈ holders owners) (ok : Bool) :
    Sound owners (s.epollAdd ok p).2.resources := by
  unfold Server.epollAdd
  split
  · exact h
  next hguard =>
    push Not at hguard
    rw [h.touch hp]
    cases ok with
    | false => exact h
    | true =>
      refine ⟨h.owned_iff, ?_, h.kept, h.noFault, h.noBadClose, h.efd_ge⟩
      intro e he
      rcases List.mem_append.1 he with he | he
      · exact h.registered e he
      · obtain rfl := List.mem_singleton.1 he
        exact ⟨hguard.1, rfl, hguard.2.2, rfl, some_mem_holders.1 hp⟩

theorem epollDel (h : Sound owners s.resources) (hp : some p ∈ holders owners) (ok : Bool) :
    Sound owners (s.epollDel ok p).2.resources := by
  unfold Server.epollDel
  split
  · exact h
  · rw [h.touch hp]
    cases ok with
    | false => exact h
    | true =>
      exact ⟨h.owned_iff, fun e he ↦ h.registered e (List.mem_filter.1 he).1, h.kept, h.noFault,
        h.noBadClose, h.efd_ge⟩

theorem closeEpoll (h : Sound owners s.resources) :
    Sound owners s.closeEpoll.resources ∧ s.closeEpoll.efd = -1 := by
  have hge : -1 ≤ s.efd := h.efd_ge
  unfold Server.closeEpoll
  by_cases hefd : 0 ≤ s.efd
  · rw [if_pos hefd]
    have hopen : s.efd ∈ s.openFds := h.kept.mem (none_mem_holders owners) hefd
    have hnone : ∀ e ∈ s.registered, ¬ (e.epfd ≠ s.efd ∧ e.fd ≠ s.efd) := fun e he hne ↦
      hne.1 (h.registered e he).2.1
    refine ⟨⟨h.owned_iff, ?_, ?_, h.noFault, ?_, le_rfl⟩, rfl⟩
    · intro e he
      obtain ⟨he, hne⟩ := List.mem_filter.1 he
      exact absurd (of_decide_eq_true hne) (hnone e he)
    · have hupdate : { s.close s.efd with efd := -1 }.resources.fd =
          update s.resources.fd none (-1) := by
        funext i
        cases i <;> rfl
      rw [hupdate]
      exact h.kept.release (none_mem_holders owners) hefd
    · have hgood : s.badClose = false := h.noBadClose
      simp [Server.close, hopen, hgood]
  · rw [if_neg hefd]
    exact ⟨h, by omega⟩

theorem registered_nil (h : Sound owners s.resources) (hefd : s.efd < 0) : s.registered = [] := by
  apply List.eq_nil_iff_forall_not_mem.2
  intro e he
  obtain ⟨h0, hepfd, -⟩ := h.registered e he
  simp only [Server.resources_efd] at hepfd
  omega

theorem openEpoll (h : Sound owners s.resources) (hefd : s.efd < 0) (hint : ℕ) :
    Sound owners { s.opened (s.newFd hint) with efd := s.newFd hint }.resources := by
  refine ⟨h.owned_iff, fun e he ↦ ?_, ?_, h.noFault, h.noBadClose,
    Int.le_trans (by decide) (s.newFd_nonneg hint)⟩
  · have he : e ∈ s.registered := he
    rw [h.registered_nil hefd] at he
    cases he
  · have hupdate : { s.opened (s.newFd hint) with efd := s.newFd hint }.resources.fd =
        update s.resources.fd none (s.newFd hint) := by
      funext i
      cases i <;> rfl
    rw [hupdate]
    exact h.kept.acquire (none_mem_holders owners) hefd (s.newFd_nonneg hint) (s.newFd_notMem hint)

theorem newClient (h : Sound owners s.resources) {a : ℕ} (ha : a ∉ s.allocated) {socket : Socket}
    {fd : ℤ} (hsocket : socket.fd = fd) (h0 : 0 ≤ fd) (hnew : fd ∉ s.openFds) :
    Sound (insert (.client a) owners) { s.resources with
      memory := update s.memory (.client a) socket
      allocated := a :: s.allocated
      openFds := fd :: s.openFds } := by
  have hown : Ptr.client a ∉ owners := by
    intro hmem
    obtain ⟨b, hb, heq⟩ := (h.owned_iff _).1 hmem
    exact ha (Ptr.client.inj heq ▸ hb)
  have hp : ∀ q, some q ∈ holders owners → q ≠ .client a := by
    rintro q hq rfl
    rcases some_mem_holders.1 hq with heq | hmem
    · cases heq
    · exact hown hmem
  refine ⟨?_, ?_, ?_, h.noFault, h.noBadClose, h.efd_ge⟩
  · intro p
    simp only [Set.mem_insert_iff, h.owned_iff, Server.resources_allocated, List.mem_cons,
      exists_eq_or_imp]
  · intro e he
    obtain ⟨h0, hepfd, hefd, hfd', hptr⟩ := h.registered e he
    have hne : e.ptr ≠ .client a := hp _ (some_mem_holders.2 hptr)
    refine ⟨h0, hepfd, hefd, ?_, hptr.imp_right (Set.mem_insert_of_mem _)⟩
    simpa only [update_of_ne hne, Server.resources_memory] using hfd'
  · have hcongr : Kept (holders owners) (update s.resources.fd (some (.client a)) (-1))
        s.openFds := by
      refine h.kept.congr fun i hi ↦ update_of_ne ?_ _ _
      rintro rfl
      exact hp _ hi rfl
    have hupdate := s.resources.fd_update (.client a) socket
    rw [hsocket] at hupdate
    rw [holders_insert]
    have := (hcongr.insert (i := some (.client a)) (by rw [update_self]; decide)).acquire
      (Set.mem_insert _ _) (by rw [update_self]; decide) h0 hnew
    rw [update_idem] at this
    exact hupdate ▸ this

end Sound

end LowLatency.TCPServer
