/-
Sockets that wait for connections (`libc/sys/socket.rs`) over any run of connections that come in, `select` and `accept`.

- `Server`, `step`: the sockets, with the connections that have come in at each listener and those that were accepted.
- `Conserved`: what came in was accepted or still waits, in this order.
- `Prompt`: what waits is reported and accepted. `Ready`: when that is so.
- `accept_isOk`, `accept_spec`: a connection that was parked is handed over.
- `readiness_iff`: runs. `parked_connection`: `select` only looks at the listener, so it misses the parked connection.
-/
import TouchHLE.Libc.Select

namespace TouchHLE.Readiness

open Machine Net

/-! ## Runs -/

structure Server where
  net : Net
  /-- the connections that came in, by the listener of the host -/
  arrived : ℕ → List TcpStream
  /-- the connections that were handed to the guest -/
  accepted : ℕ → List TcpStream

inductive Op where
  | arrive (listener : ℕ) (stream : TcpStream)
  | select (a : SelectArgs)
  | accept (fd : ℤ) (address addressLen : ℕ)

/-- the connections that were accepted when `fd` has given the new descriptor `newFd` -/
def Server.handedOver (s : Server) (n : Net) (fd newFd : ℤ) : ℕ → List TcpStream :=
  match s.net.listener fd, (n.table.sockets newFd).bind SocketHostObject.tcpStream with
  | some l, some stream => Function.update s.accepted l (s.accepted l ++ [stream])
  | _, _ => s.accepted

def step (s : Server) : Op → Except Panic Server
  | .arrive l stream => pure
      { s with
        net := { s.net with queue := Function.update s.net.queue l (s.net.queue l ++ [stream]) }
        arrived := Function.update s.arrived l (s.arrived l ++ [stream]) }
  | .select a => do
    let (_, net) ← s.net.select a
    pure { s with net }
  | .accept fd address addressLen => do
    let (newFd, net) ← s.net.accept fd address addressLen
    pure { s with net, accepted := s.handedOver net fd newFd }

/-- **No connection is lost or accepted twice**: what came in at a socket was accepted or waits there, in this order. -/
def Conserved (s : Server) : Prop :=
  ∀ fd l, s.net.listener fd = some l → s.arrived l = s.accepted l ++ s.net.waiting fd

/-- the socket has a connection that was not accepted yet -/
def HasWaiting (n : Net) (fd : ℤ) : Prop := (n.listener fd).isSome ∧ n.waiting fd ≠ []

/-- `select` is asked whether the descriptor is readable -/
def Asks (a : SelectArgs) (fd : ℕ) : Prop := (fd : ℤ) < a.nFds ∧ ∃ s, a.readFds = some s ∧ s.getLsbD fd = true

/-- **What waits is reported** by every `select` that asks, and is accepted by `accept`. -/
def Prompt (s : Server) : Op → Prop
  | .arrive _ _ => True
  | .select a => ∀ fd, Asks a fd → HasWaiting s.net fd →
      ∃ res n', s.net.select a = .ok (res, n') ∧ ∃ set, res.readFds = some set ∧ set.getLsbD fd = true
  | .accept fd address addressLen => HasWaiting s.net fd → ∃ res, s.net.accept fd address addressLen = .ok res

/-! ## The condition -/

/-- the address of the peer is known, and there is room for it -/
def TakesAddress (mem : Mem) (stream : TcpStream) (address addressLen : ℕ) : Prop :=
  ∃ octets port mem', stream.peerAddr = some (octets, port) ∧ address ≠ 0 ∧
    mem.writeBytes address (sockaddrBytes octets port) = .ok mem' ∧ mem'.readU32 addressLen = .ok 16

/-- a connection is parked at the socket, and there is a descriptor for it -/
def CanAccept (n : Net) (fd : ℤ) (address addressLen : ℕ) : Prop :=
  ∃ obj stream, n.table.sockets fd = some obj ∧ obj.pendingTcpStream = some stream ∧
    (∃ fd, 3 ≤ fd ∧ fd < 2 ^ 31 ∧ ¬n.table.IsOpen fd) ∧ TakesAddress n.table.mem stream address addressLen

/-- no connection is parked where `select` is asked about one that waits, and all other descriptors have an answer;
`accept` is called after `select` -/
def Ready (s : Server) : Op → Prop
  | .arrive _ _ => True
  | .select a => (∃ fd, Asks a fd ∧ HasWaiting s.net fd) → Answers a s.net ∧
      ∀ fd obj, Asks a fd → (s.net.listener fd).isSome → s.net.table.sockets fd = some obj → obj.pendingTcpStream = none
  | .accept fd address addressLen => HasWaiting s.net fd → CanAccept s.net fd address addressLen

/-! ## Accepting -/

section

variable {n n' : Net} {s s' : Server} {fd newFd : ℤ} {obj : SocketHostObject} {stream : TcpStream}
  {l address addressLen : ℕ} {sock : SocketHostObject} {o : Op}

/-- a socket that waits for connections -/
theorem listener_some (hl : n.listener fd = some l) : ∃ obj, n.table.sockets fd = some obj ∧ obj.type = sockStream ∧
    obj.tcpStream = none ∧ obj.tcpListener = some l := by
  unfold Net.listener at hl
  obtain ⟨obj, hobj, hl⟩ := Option.bind_eq_some_iff.1 hl
  split_ifs at hl with h
  exact ⟨obj, hobj, h.1, h.2, hl⟩

theorem waiting_eq (hobj : n.table.sockets fd = some obj) (hl : obj.tcpListener = some l) :
    n.waiting fd = obj.pendingTcpStream.toList ++ n.queue l := by
  rw [Net.waiting, hobj]
  simp only [hl, Option.elim_some]

/-- the socket table after a connection was accepted -/
structure HandsOver (n n' : Net) (fd newFd : ℤ) (obj : SocketHostObject) (stream : TcpStream) : Prop where
  socket : n.table.sockets fd = some obj
  pending : obj.pendingTcpStream = some stream
  fresh : n.table.sockets newFd = none
  queue : n'.queue = n.queue
  sockets : n'.table.sockets = Function.update (Function.update n.table.sockets fd (some (bare obj))) newFd
    (some (Descriptors.newSocket sockStream (some stream)))

/-- a new socket is added to a table: its descriptor was free, and a descriptor is all it takes -/
theorem addSocket_spec {t t' : Descriptors} (hs : t.Sound) (h : t.addSocket sock = .ok (newFd, t')) :
    t.sockets newFd = none ∧ t'.sockets = Function.update t.sockets newFd (some sock) ∧ t'.mem = t.mem := by
  rw [Descriptors.addSocket_ok hs] at h
  obtain ⟨⟨fd, t₁⟩, hf, h⟩ := bind_eq_ok.1 h
  cases h
  obtain ⟨hfree, hkeys, -⟩ := Descriptors.findOrCreateFd_frame hf
  obtain ⟨-, -, ht₁⟩ := Descriptors.findOrCreateFd_cases hf
  refine ⟨?_, ?_, ?_⟩
  · rw [← Option.not_isSome_iff_eq_none, hs]
    rintro ⟨file, hfile, -⟩
    cases hfree.symm.trans hfile
  · rw [Descriptors.setSocket, hkeys]
  · rw [Descriptors.setSocket, ht₁]

theorem addSocket_isOk {t : Descriptors} (hs : t.Sound) :
    (∃ res, t.addSocket sock = .ok res) ↔ ∃ fd, 3 ≤ fd ∧ fd < 2 ^ 31 ∧ ¬t.IsOpen fd := by
  rw [Descriptors.addSocket_ok hs, ← (Descriptors.findOrCreateFd_least t _).2]
  unfold Descriptors.findOrCreateSocket
  constructor
  · rintro ⟨res, h⟩
    obtain ⟨r, hr, -⟩ := bind_eq_ok.1 h
    exact ⟨r, hr⟩
  · rintro ⟨⟨fd, t'⟩, h⟩
    rw [h]
    exact ⟨_, rfl⟩

theorem sound_bare (hs : n.table.Sound) (hobj : n.table.sockets fd = some obj) :
    (n.table.setSocket fd (some (bare obj))).Sound := by
  have hget : n.table.getSocket fd = .ok obj := by
    unfold Descriptors.getSocket
    rw [hobj]
  exact hs.setSocket hget

/-- **`accept` hands over the connection that was parked**. -/
theorem accept_spec (hs : n.table.Sound) (h : n.accept fd address addressLen = .ok (newFd, n')) :
    ∃ obj stream, HandsOver n n' fd newFd obj stream := by
  obtain ⟨⟨fd', table⟩, haccept, hn'⟩ := bind_eq_ok.1 h
  cases hn'
  unfold Descriptors.accept at haccept
  obtain ⟨obj, hget, h⟩ := bind_eq_ok.1 haccept
  obtain ⟨u, -, h⟩ := bind_eq_ok.1 h
  have hobj : n.table.sockets fd = some obj := by
    unfold Descriptors.getSocket at hget
    split at hget
    · cases hget
      assumption
    · cases hget
  cases hpending : obj.pendingTcpStream with
  | none =>
    simp only [hpending] at h
    cases h
  | some stream =>
    simp only [hpending] at h
    cases hpeer : stream.peerAddr with
    | none =>
      simp only [hpeer] at h
      cases h
    | some peer =>
      simp only [hpeer] at h
      obtain ⟨⟨fd₁, t₁⟩, hadd, h⟩ := bind_eq_ok.1 h
      obtain ⟨u, -, h⟩ := bind_eq_ok.1 h
      obtain ⟨mem₁, -, h⟩ := bind_eq_ok.1 h
      obtain ⟨len, -, h⟩ := bind_eq_ok.1 h
      obtain ⟨u, -, h⟩ := bind_eq_ok.1 h
      obtain ⟨mem₂, -, h⟩ := bind_eq_ok.1 h
      cases h
      obtain ⟨hfree, hsockets, -⟩ := addSocket_spec (sound_bare hs hobj) hadd
      refine ⟨obj, stream, hobj, hpending, ?_, rfl, hsockets⟩
      by_cases heq : fd₁ = fd
      · dsimp only [Descriptors.setSocket] at hfree
        rw [heq, Function.update_self] at hfree
        cases hfree
      · dsimp only [Descriptors.setSocket] at hfree
        rwa [Function.update_of_ne heq] at hfree

theorem accept_isOk (hs : n.table.Sound) (hl : n.listener fd = some l) :
    (∃ res, n.accept fd address addressLen = .ok res) ↔ CanAccept n fd address addressLen := by
  obtain ⟨obj, hobj, htype, -, -⟩ := listener_some hl
  have hget : n.table.getSocket fd = .ok obj := by
    unfold Descriptors.getSocket
    rw [hobj]
  have hbare := sound_bare hs hobj
  constructor
  · rintro ⟨res, h⟩
    obtain ⟨r, h, -⟩ := bind_eq_ok.1 h
    rw [Descriptors.accept, hget, ok_bind, assert_ok (beq_iff_eq.2 htype), ok_bind] at h
    cases hpending : obj.pendingTcpStream with
    | none =>
      simp only [hpending] at h
      cases h
    | some stream =>
      simp only [hpending] at h
      cases hpeer : stream.peerAddr with
      | none =>
        simp only [hpeer] at h
        cases h
      | some peer =>
        simp only [hpeer] at h
        obtain ⟨⟨fd₁, t₁⟩, hadd, h⟩ := bind_eq_ok.1 h
        obtain ⟨u, haddress, h⟩ := bind_eq_ok.1 h
        obtain ⟨mem₁, hwrite, h⟩ := bind_eq_ok.1 h
        obtain ⟨len, hread, h⟩ := bind_eq_ok.1 h
        obtain ⟨u, hlen, h⟩ := bind_eq_ok.1 h
        obtain ⟨-, -, hmem⟩ := addSocket_spec hbare hadd
        have h16 : len = 16 := beq_iff_eq.1 (assert_cases hlen)
        refine ⟨obj, stream, hobj, hpending, (addSocket_isOk hbare).1 ⟨_, hadd⟩, peer.1, peer.2, mem₁, hpeer, ?_, ?_, ?_⟩
        · exact bne_iff_ne.1 (assert_cases haddress)
        · rw [hmem] at hwrite
          exact hwrite
        · rw [hread, h16]
  · rintro ⟨obj', stream, hobj', hpending, hfree, octets, port, mem₁, hpeer, haddress, hwrite, hread⟩
    cases hobj.symm.trans hobj'
    obtain ⟨⟨fd₁, t₁⟩, hadd⟩ : ∃ res, (n.table.setSocket fd (some (bare obj))).addSocket
        (Descriptors.newSocket sockStream (some stream)) = .ok res := (addSocket_isOk hbare).2 hfree
    obtain ⟨-, -, hmem⟩ := addSocket_spec hbare hadd
    have hstore : ∃ mem₂, mem₁.writeU32 addressLen 16 = .ok mem₂ := by
      obtain ⟨u, hrange, -⟩ := bind_eq_ok.1 hread
      unfold Mem.writeU32
      rw [hrange]
      exact ⟨_, rfl⟩
    obtain ⟨mem₂, hstore⟩ := hstore
    have hwrite' : t₁.mem.writeBytes address (sockaddrBytes octets port) = .ok mem₁ := by
      rw [hmem]
      exact hwrite
    unfold bare at hadd
    rw [Net.accept, Descriptors.accept, hget, ok_bind, assert_ok (beq_iff_eq.2 htype), ok_bind]
    simp only [hpending, hpeer, hadd, ok_bind, assert_ok (bne_iff_ne.2 haddress), hwrite', hread, hstore, pure_eq_ok]
    exact ⟨_, rfl⟩

/-! ## Readiness -/

theorem HandsOver.listener (h : HandsOver n n' fd newFd obj stream) (fd' : ℤ) :
    n'.listener fd' = if fd' = newFd then none else n.listener fd' := by
  unfold Net.listener
  rw [h.sockets]
  by_cases hnew : fd' = newFd
  · rw [if_pos hnew, hnew, Function.update_self]
    rfl
  · rw [if_neg hnew, Function.update_of_ne hnew]
    by_cases heq : fd' = fd
    · rw [heq, Function.update_self, h.socket]
      rfl
    · rw [Function.update_of_ne heq]

theorem HandsOver.ne (h : HandsOver n n' fd newFd obj stream) : newFd ≠ fd := by
  rintro rfl
  cases h.fresh.symm.trans h.socket

theorem HandsOver.waiting_of_ne (h : HandsOver n n' fd newFd obj stream) {fd' : ℤ} (hnew : fd' ≠ newFd) (hne : fd' ≠ fd) :
    n'.waiting fd' = n.waiting fd' := by
  unfold Net.waiting
  rw [h.sockets, h.queue, Function.update_of_ne hnew, Function.update_of_ne hne]

/-- the first connection that waits is the one that is handed over -/
theorem HandsOver.waiting (h : HandsOver n n' fd newFd obj stream) : n.waiting fd = stream :: n'.waiting fd := by
  unfold Net.waiting
  rw [h.sockets, h.queue, Function.update_of_ne h.ne.symm, Function.update_self, h.socket]
  simp only [h.pending, bare, Option.toList_some, Option.toList_none, List.nil_append, List.singleton_append]

theorem HandsOver.apart (h : HandsOver n n' fd newFd obj stream) (hap : Apart n) : Apart n' := by
  have hold (fd' : ℤ) (obj' : SocketHostObject) (hobj' : n'.table.sockets fd' = some obj') (hl : obj'.tcpListener.isSome) :
      ∃ obj₀, n.table.sockets fd' = some obj₀ ∧ obj₀.tcpListener = obj'.tcpListener := by
    rw [h.sockets] at hobj'
    by_cases hnew : fd' = newFd
    · rw [hnew, Function.update_self] at hobj'
      rw [← Option.some.inj hobj'] at hl
      cases hl
    · rw [Function.update_of_ne hnew] at hobj'
      by_cases heq : fd' = fd
      · rw [heq, Function.update_self] at hobj'
        exact ⟨obj, heq ▸ h.socket, Option.some.inj hobj' ▸ rfl⟩
      · rw [Function.update_of_ne heq] at hobj'
        exact ⟨obj', hobj', rfl⟩
  intro fd₁ fd₂ obj₁ obj₂ h1 h2 hsome heq
  obtain ⟨o₁, ho₁, hl₁⟩ := hold fd₁ obj₁ h1 hsome
  obtain ⟨o₂, ho₂, hl₂⟩ := hold fd₂ obj₂ h2 (heq ▸ hsome)
  exact hap fd₁ fd₂ o₁ o₂ ho₁ ho₂ (hl₁ ▸ hsome) (hl₂.trans (heq.trans hl₁.symm))

theorem accept_sound (hs : n.table.Sound) (h : n.accept fd address addressLen = .ok (newFd, n')) : n'.table.Sound := by
  obtain ⟨⟨fd', table⟩, haccept, hn'⟩ := bind_eq_ok.1 h
  cases hn'
  exact hs.accept haccept

/-- a server whose sockets have listeners of their own -/
structure Inv (s : Server) : Prop where
  table : s.net.table.Sound
  apart : Apart s.net

theorem step_inv (hi : Inv s) (hs : step s o = .ok s') : Inv s' := by
  cases o with
  | arrive l stream =>
    cases hs
    exact ⟨hi.table, hi.apart⟩
  | select a =>
    obtain ⟨⟨res, n'⟩, h, hs⟩ := bind_eq_ok.1 hs
    cases hs
    obtain ⟨hparks, -⟩ := select_spec hi.apart h
    exact ⟨hparks.sound hi.table, hparks.apart hi.apart⟩
  | accept fd address addressLen =>
    obtain ⟨⟨newFd, n'⟩, h, hs⟩ := bind_eq_ok.1 hs
    cases hs
    obtain ⟨obj, stream, hands⟩ := accept_spec hi.table h
    exact ⟨accept_sound hi.table h, hands.apart hi.apart⟩

/-- **No step loses a connection** or accepts one twice. -/
theorem step_conserved (hi : Inv s) (hc : Conserved s) (hs : step s o = .ok s') : Conserved s' := by
  intro fd' l' hl'
  cases o with
  | arrive l stream =>
    cases hs
    obtain ⟨obj, hobj, -, -, hlistener⟩ := listener_some hl'
    have hold : s.net.listener fd' = some l' := hl'
    have hcons := hc fd' l' hold
    have hwait : s.net.waiting fd' = obj.pendingTcpStream.toList ++ s.net.queue l' := waiting_eq hobj hlistener
    rw [waiting_eq hobj hlistener]
    by_cases heq : l' = l
    · subst heq
      dsimp only
      rw [Function.update_self, Function.update_self, hcons, hwait, List.append_assoc, List.append_assoc]
    · dsimp only
      rw [Function.update_of_ne heq, Function.update_of_ne heq, hcons, hwait]
  | select a =>
    obtain ⟨⟨res, n'⟩, h, hs⟩ := bind_eq_ok.1 hs
    cases hs
    obtain ⟨hparks, -⟩ := select_spec hi.apart h
    have hold : s.net.listener fd' = some l' := (hparks.listener fd').symm.trans hl'
    have hcons := hc fd' l' hold
    rw [← hparks.waiting fd'] at hcons
    exact hcons
  | accept fd address addressLen =>
    obtain ⟨⟨newFd, n'⟩, h, hs⟩ := bind_eq_ok.1 hs
    cases hs
    obtain ⟨obj, stream, hands⟩ := accept_spec hi.table h
    have hnew : fd' ≠ newFd := by
      rintro rfl
      have hnone : n'.listener fd' = none := (hands.listener fd').trans (if_pos rfl)
      cases hnone.symm.trans hl'
    have hold : s.net.listener fd' = some l' := by
      rw [← hl']
      exact ((hands.listener fd').trans (if_neg hnew)).symm
    have hcons := hc fd' l' hold
    have hnewStream : (n'.table.sockets newFd).bind SocketHostObject.tcpStream = some stream := by
      rw [hands.sockets, Function.update_self]
      rfl
    dsimp only [Server.handedOver]
    rw [hnewStream]
    by_cases heq : fd' = fd
    · subst heq
      rw [hold, hcons, hands.waiting]
      dsimp only
      rw [Function.update_self, List.append_assoc, List.singleton_append]
    · rw [hands.waiting_of_ne hnew heq]
      cases hl : s.net.listener fd with
      | none => exact hcons
      | some l =>
        have hne : l' ≠ l := by
          rintro rfl
          obtain ⟨o, ho, -, -, hlo⟩ := listener_some hl
          obtain ⟨o', ho', -, -, hlo'⟩ := listener_some hold
          exact heq (hi.apart fd fd' o o' ho ho' (by rw [hlo]; rfl) (hlo'.trans hlo.symm))
        dsimp only
        rw [Function.update_of_ne hne]
        exact hcons

/-- **What waits is reported and accepted** exactly if no connection is parked where `select` is asked, and one is where
`accept` is called. -/
theorem prompt_iff (hi : Inv s) : Prompt s o ↔ Ready s o := by
  cases o with
  | arrive l stream => exact Iff.rfl
  | accept fd address addressLen =>
    refine forall_congr' fun hwait => ?_
    obtain ⟨l, hl⟩ := Option.isSome_iff_exists.1 hwait.1
    exact accept_isOk hi.table hl
  | select a =>
    constructor
    · rintro hprompt ⟨fd₀, hasks₀, hwait₀⟩
      obtain ⟨res, n', hselect, -⟩ := hprompt fd₀ hasks₀ hwait₀
      have hanswers := (select_isOk hi.table hi.apart).1 ⟨_, hselect⟩
      refine ⟨hanswers, fun fd obj hasks hlisten hobj => ?_⟩
      by_contra hparked
      obtain ⟨l, hl⟩ := Option.isSome_iff_exists.1 hlisten
      obtain ⟨obj', hobj', htype, htcp, hlistener⟩ := listener_some hl
      cases hobj.symm.trans hobj'
      have hwait : HasWaiting s.net fd := by
        refine ⟨hlisten, ?_⟩
        rw [waiting_eq hobj hlistener]
        obtain ⟨stream, hstream⟩ := Option.ne_none_iff_exists'.1 hparked
        rw [hstream, Option.toList_some, List.singleton_append]
        exact List.cons_ne_nil _ _
      obtain ⟨res', n'', hselect', set, hset, hbit⟩ := hprompt fd hasks hwait
      have hlooks : Looks a.nFds a.readFds fd := ⟨le_of_lt hasks.1, hasks.2⟩
      obtain ⟨set', hset', hreport⟩ := (select_spec hi.apart hselect').2 fd hlooks l hl
      cases hset.symm.trans hset'
      have hqueue : s.net.queue l ≠ [] := bne_iff_ne.1 (hreport.symm.trans hbit)
      -- the listener has another one, so there is no room to park it
      obtain ⟨o, ho, hcases⟩ := hanswers.reads fd hlooks
      cases hobj.symm.trans ho
      rcases hcases with ⟨hdgram, -⟩ | ⟨-, stream, hstream, -⟩ | ⟨-, -, l', hl', hpark⟩
      · exact absurd (hdgram.symm.trans htype) (by decide)
      · cases hstream.symm.trans htcp
      · cases hlistener.symm.trans hl'
        rw [if_neg hqueue] at hpark
        exact hparked hpark
    · rintro hready fd hasks hwait
      obtain ⟨hanswers, hnone⟩ := hready ⟨fd, hasks, hwait⟩
      obtain ⟨⟨res, n'⟩, hselect⟩ := (select_isOk hi.table hi.apart).2 hanswers
      obtain ⟨l, hl⟩ := Option.isSome_iff_exists.1 hwait.1
      obtain ⟨obj, hobj, -, -, hlistener⟩ := listener_some hl
      obtain ⟨set, hset, hreport⟩ := (select_spec hi.apart hselect).2 fd ⟨le_of_lt hasks.1, hasks.2⟩ l hl
      refine ⟨res, n', hselect, set, hset, ?_⟩
      have hqueue := hwait.2
      rw [waiting_eq hobj hlistener, hnone fd obj hasks hwait.1 hobj, Option.toList_none, List.nil_append] at hqueue
      rw [hreport]
      exact bne_iff_ne.2 hqueue

/-- **Readiness is level-triggered**: in a run nothing is lost or accepted twice, and what waits is reported by every
`select` and accepted, exactly if no `select` is asked about a socket where a connection is parked and `accept` finds one
parked. -/
theorem readiness_iff {ops : List Op} (ht : s.net.table.Sound) (hap : Apart s.net) (hc : Conserved s) :
    Throughout step Conserved s ops ∧ LegalRun step Prompt s ops ↔ LegalRun step Ready s ops := by
  refine legalRun_iff (I := Inv) ?_ ?_ ⟨ht, hap⟩ hc
  · intro s o s' hi hs
    exact step_inv hi hs
  · intro s o hi hc
    rw [prompt_iff hi]
    exact (and_iff_left fun s' hs => step_conserved hi hc hs).symm

end

/-! ## A connection that is parked -/

/-- descriptor 3 waits for connections with the listener 0 -/
def listeningTable : Descriptors :=
  (run Descriptors.step Descriptors.sampleStart [.socket 2 1 0, .bind 3 0]).toOption.getD Descriptors.sampleStart

def listening : Server := ⟨⟨listeningTable, fun _ => []⟩, fun _ => [], fun _ => []⟩

def listeningSocket : SocketHostObject := ⟨sockStream, some 0, none, none, none⟩

theorem listening_sockets (fd : ℤ) : listeningTable.sockets fd = if fd = 3 then some listeningSocket else none := by
  have hupdate : listeningTable.sockets =
      Function.update (Function.update (fun _ => none) 3 (some (Descriptors.newSocket sockStream none))) 3
        (some listeningSocket) := rfl
  rw [hupdate, Function.update_idem, Function.update_apply]

theorem listening_sound : listening.net.table.Sound := by
  have hrun : run Descriptors.step Descriptors.sampleStart [.socket 2 1 0, .bind 3 0] = .ok listeningTable := rfl
  exact run_inv Descriptors.step_sound (Descriptors.init_sound true _) hrun

theorem listening_apart : Apart listening.net := by
  intro fd fd' obj obj' hobj hobj' _ _
  have hkey (fd : ℤ) (obj : SocketHostObject) (h : listeningTable.sockets fd = some obj) : fd = 3 := by
    rw [listening_sockets] at h
    by_contra hne
    rw [if_neg hne] at h
    cases h
  rw [hkey fd obj hobj, hkey fd' obj' hobj']

theorem listening_conserved : Conserved listening := by
  intro fd l hl
  obtain ⟨obj, hobj, -, -, hlistener⟩ := listener_some hl
  rw [waiting_eq hobj hlistener]
  have hsocket : listeningTable.sockets fd = some obj := hobj
  rw [listening_sockets] at hsocket
  split_ifs at hsocket
  rw [← Option.some.inj hsocket]
  rfl

def client : TcpStream := ⟨0, some ([127, 0, 0, 1], 80)⟩

/-- a `select` that asks about descriptor 3 and does not block -/
def selectThree : SelectArgs :=
  ⟨4, some (1#1024 <<< 3), none, none, some (0, 0), ⟨fun _ => .failed, fun _ => .failed, fun _ => true⟩⟩

theorem readiness_iff_three : Throughout step Conserved listening [.arrive 0 client, .select selectThree] ∧
    LegalRun step Prompt listening [.arrive 0 client, .select selectThree] ↔
      LegalRun step Ready listening [.arrive 0 client, .select selectThree] :=
  readiness_iff listening_sound listening_apart listening_conserved

set_option maxRecDepth 4000 in
/-- **A connection that is parked** is not reported by the next `select`. -/
theorem parked_connection : ¬∀ (s : Server) (ops : List Op), s.net.table.Sound → Apart s.net → Conserved s →
    Throughout step Conserved s ops ∧ LegalRun step Prompt s ops := by
  intro hall
  obtain ⟨-, hrun⟩ := hall listening [.arrive 0 client, .select selectThree, .select selectThree] listening_sound
    listening_apart listening_conserved
  have hprompt := (((hrun.2 _ rfl).2 _ rfl).1) 3 ⟨by decide, _, rfl, by decide⟩ ⟨rfl, List.cons_ne_nil _ _⟩
  obtain ⟨res, n', hselect, set, hset, hbit⟩ := hprompt
  cases hselect
  cases hset
  exact absurd hbit (by decide)

end TouchHLE.Readiness
