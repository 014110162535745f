import Crowdsensing.Edge.OneSession

/-!
# `send_data` on two threads

The timer thread and the NDN thread both run `send_data`.  Each operation of the
session table holds the mutex, but the four steps of `send_data` do not hold it
together: look up the buffer, look up the packet, set its content and put it, erase
the session.

* `Race` and `Race.step` — the two threads, one operation a step, in any order.
* `send_data_steps` — the four steps of one thread on its own are `sendData`.
* `Race.Safe` — no session is answered twice, and no null packet is written to.
* `Race.Exclusive` — no thread gets past `buffer` for a session that the other
  thread is sending.
* `send_data_race` — **`send_data` is safe exactly in the exclusive runs**.
-/

namespace Crowdsensing

open Text

/-! ## Two threads -/

/-- The threads that run `send_data`. -/
inductive Thread
  | timer
  | ndn
  deriving DecidableEq, Repr

/-- The other thread. -/
def Thread.other : Thread → Thread
  | .timer => .ndn
  | .ndn => .timer

namespace Thread

@[simp] theorem other_other (t : Thread) : t.other.other = t := by
  cases t <;> rfl

theorem eq_or_other (t t' : Thread) : t' = t ∨ t' = t.other := by
  cases t <;> cases t' <;> decide

end Thread

/-- How far a thread is in `send_data`. -/
inductive Pc
  | idle
  /-- `buffer` has returned. -/
  | haveBuffer (sessionId : UInt64)
  /-- `data_packet` has returned. -/
  | haveData (sessionId : UInt64) (dataPacket : Option Data)
  /-- The packet is put. -/
  | sent (sessionId : UInt64)
  deriving DecidableEq, Repr

/-- The session a thread is sending. -/
def Pc.session : Pc → Option UInt64
  | .idle => none
  | .haveBuffer s => some s
  | .haveData s _ => some s
  | .sent s => some s

/-- Whether a thread has the buffer of a session and has yet to put its packet. -/
def Pc.pending (s : UInt64) : Pc → ℕ
  | .haveBuffer k => if k = s then 1 else 0
  | .haveData k _ => if k = s then 1 else 0
  | _ => 0

/-- The session table, the packets put, and the two threads. -/
structure Race where
  sessions : SessionManager
  puts : List (UInt64 × Data) := []
  pc : Thread → Pc := fun _ => .idle
  /-- `setContent` was called on a null pointer. -/
  nullWrite : Bool := false

namespace Race

/-- A thread goes on. -/
def setPc (q : Race) (t : Thread) (pc : Pc) : Race :=
  { q with pc := fun t' => if t' = t then pc else q.pc t' }

/-- One operation of a thread. -/
inductive Act
  /-- `send_data` is called and looks up the buffer. -/
  | buffer (t : Thread) (sessionId : UInt64)
  /-- It looks up the packet. -/
  | dataPacket (t : Thread)
  /-- It sets the content of the packet and puts it.  The buffer is a reference; if
  its session was erased, the bytes are whatever stands there. -/
  | put (t : Thread) (stale : Str)
  /-- It erases the session. -/
  | erase (t : Thread)
  /-- A reply is appended. -/
  | appendPayload (sessionId : UInt64) (value : Str)
  deriving DecidableEq, Repr

/-- One step: `none` if the thread is elsewhere or the process is gone. -/
def step (q : Race) (a : Act) : Option Race :=
  if q.nullWrite then none
  else
    match a with
    | .buffer t s =>
      if q.pc t = .idle then
        match q.sessions.buffer s with
        | none => some q
        | some _ => some (q.setPc t (.haveBuffer s))
      else none
    | .dataPacket t =>
      match q.pc t with
      | .haveBuffer s => some (q.setPc t (.haveData s (q.sessions.dataPacket s)))
      | _ => none
    | .put t stale =>
      match q.pc t with
      | .haveData _ none => some { q with nullWrite := true }
      | .haveData s (some data_packet) =>
        let content := (q.sessions.buffer s).getD stale
        some ({ q with
          puts := q.puts ++ [(s, data_packet.setContent content)] }.setPc t (.sent s))
      | _ => none
    | .erase t =>
      match q.pc t with
      | .sent s => some ({ q with sessions := q.sessions.erase s }.setPc t .idle)
      | _ => none
    | .appendPayload s value => some { q with sessions := (q.sessions.appendPayload s value).2 }

/-- No session is answered twice, and no null packet is written to. -/
structure Safe (q : Race) : Prop where
  once : ∀ s, (putsFor s q.puts).length ≤ 1
  notNull : q.nullWrite = false

/-- No call of `send_data` is left unfinished. -/
def Completed (q : Race) : Prop := q.nullWrite = true ∨ ∀ t, q.pc t = .idle

/-- A thread that looks up the buffer of a session finds it only while the other
thread is not sending that session. -/
def Exclusive (_history : List Act) (q : Race) (a : Act) : Prop :=
  ∀ t s, a = .buffer t s → q.sessions.get s ≠ none → (q.pc t.other).session ≠ some s

/-! ## What a step can do -/

/-- The steps, one by one. -/
inductive Moves (q : Race) : Act → Race → Prop
  | missing {t : Thread} {s : UInt64} (idle : q.pc t = .idle) (gone : q.sessions.get s = none) :
    Moves q (.buffer t s) q
  | buffer {t : Thread} {s : UInt64} (idle : q.pc t = .idle) (held : q.sessions.get s ≠ none) :
    Moves q (.buffer t s) (q.setPc t (.haveBuffer s))
  | dataPacket {t : Thread} {s : UInt64} (pc : q.pc t = .haveBuffer s) :
    Moves q (.dataPacket t)
      (q.setPc t (.haveData s ((q.sessions.get s).map Session.dataPtr)))
  | nullWrite {t : Thread} {s : UInt64} {stale : Str} (pc : q.pc t = .haveData s none) :
    Moves q (.put t stale) { q with nullWrite := true }
  | put {t : Thread} {s : UInt64} {stale : Str} {packet : Data} (content : Str)
    (pc : q.pc t = .haveData s (some packet)) :
    Moves q (.put t stale)
      ({ q with puts := q.puts ++ [(s, packet.setContent content)] }.setPc t (.sent s))
  | erase {t : Thread} {s : UInt64} (pc : q.pc t = .sent s) :
    Moves q (.erase t) ({ q with sessions := q.sessions.erase s }.setPc t .idle)
  | appendPayload (s : UInt64) (value : Str) :
    Moves q (.appendPayload s value) { q with sessions := (q.sessions.appendPayload s value).2 }

theorem step_moves {q q' : Race} {a : Act} (h : q.step a = some q') :
    q.nullWrite = false ∧ Moves q a q' := by
  unfold step at h
  split at h
  · exact absurd h nofun
  · rename_i hnull
    refine ⟨by simpa using hnull, ?_⟩
    cases a with
    | buffer t s =>
      simp only [SessionManager.buffer_eq] at h
      by_cases hidle : q.pc t = .idle
      · rw [if_pos hidle] at h
        cases hs : q.sessions.get s with
        | none =>
          rw [hs] at h
          obtain rfl := Option.some.inj h
          exact Moves.missing hidle hs
        | some session =>
          rw [hs] at h
          obtain rfl := Option.some.inj h
          exact Moves.buffer hidle (by rw [hs]; exact nofun)
      · rw [if_neg hidle] at h
        exact absurd h nofun
    | dataPacket t =>
      simp only [SessionManager.dataPacket_eq] at h
      cases hpc : q.pc t with
      | haveBuffer s =>
        rw [hpc] at h
        obtain rfl := Option.some.inj h
        exact Moves.dataPacket hpc
      | _ =>
        rw [hpc] at h
        exact absurd h nofun
    | put t stale =>
      simp only at h
      cases hpc : q.pc t with
      | haveData s packet =>
        rw [hpc] at h
        cases packet with
        | none =>
          obtain rfl := Option.some.inj h
          exact Moves.nullWrite hpc
        | some packet =>
          obtain rfl := Option.some.inj h
          exact Moves.put _ hpc
      | _ =>
        rw [hpc] at h
        exact absurd h nofun
    | erase t =>
      simp only at h
      cases hpc : q.pc t with
      | sent s =>
        rw [hpc] at h
        obtain rfl := Option.some.inj h
        exact Moves.erase hpc
      | _ =>
        rw [hpc] at h
        exact absurd h nofun
    | appendPayload s value =>
      obtain rfl := Option.some.inj h
      exact Moves.appendPayload s value

section

variable (q : Race) (t : Thread) (pc : Pc)

@[simp] theorem setPc_self : (q.setPc t pc).pc t = pc := if_pos rfl

@[simp] theorem setPc_other : (q.setPc t pc).pc t.other = q.pc t.other := by
  cases t <;> rfl

@[simp] theorem setPc_sessions : (q.setPc t pc).sessions = q.sessions := rfl

@[simp] theorem setPc_puts : (q.setPc t pc).puts = q.puts := rfl

@[simp] theorem setPc_nullWrite : (q.setPc t pc).nullWrite = q.nullWrite := rfl

end

/-! ## Exclusive runs are safe -/

/-- What exclusive runs keep: the threads send different sessions, both of them still
held; a session that is held and not yet sent was not answered. -/
structure Guarded (q : Race) : Prop where
  alone : ∀ t s, (q.pc t).session = some s → (q.pc t.other).session ≠ some s
  held : ∀ t s, (q.pc t).session = some s → q.sessions.get s ≠ none
  unsent : ∀ s, q.sessions.get s ≠ none → (∀ t, q.pc t ≠ .sent s) → putsFor s q.puts = []
  packet : ∀ t s, q.pc t ≠ .haveData s none
  safe : q.Safe

section

variable {q q' : Race} {t : Thread} {a : Act}

theorem alone_setPc {pc : Pc}
    (hpc : ∀ s, pc.session = some s → (q.pc t.other).session ≠ some s) (t' : Thread) (s : UInt64)
    (ht : ((q.setPc t pc).pc t').session = some s) :
    ((q.setPc t pc).pc t'.other).session ≠ some s := by
  rcases Thread.eq_or_other t t' with rfl | rfl
  · rw [setPc_self] at ht
    rw [setPc_other]
    exact hpc s ht
  · rw [setPc_other] at ht
    rw [Thread.other_other, setPc_self]
    exact fun hc => hpc s hc ht

theorem Guarded.held_setPc (h : q.Guarded) {pc : Pc}
    (hpc : ∀ s, pc.session = some s → q.sessions.get s ≠ none) (t' : Thread) (s : UInt64)
    (ht : ((q.setPc t pc).pc t').session = some s) : q.sessions.get s ≠ none := by
  rcases Thread.eq_or_other t t' with rfl | rfl
  · rw [setPc_self] at ht
    exact hpc s ht
  · rw [setPc_other] at ht
    exact h.held _ s ht

/-- A thread whose step neither sends nor erases. -/
theorem Guarded.setPc (h : q.Guarded) {pc : Pc} (hidle : ∀ s, q.pc t ≠ .sent s)
    (halone : ∀ s, pc.session = some s → (q.pc t.other).session ≠ some s)
    (hheld : ∀ s, pc.session = some s → q.sessions.get s ≠ none)
    (hpacket : ∀ s, pc ≠ .haveData s none) : (q.setPc t pc).Guarded := by
  refine ⟨alone_setPc halone, h.held_setPc hheld, fun s hs hsent => ?_, fun t' s => ?_,
    h.safe.once, h.safe.notNull⟩
  · refine h.unsent s hs fun t' => ?_
    rcases Thread.eq_or_other t t' with rfl | rfl
    · exact hidle s
    · have hother := hsent t.other
      rw [setPc_other] at hother
      exact hother
  · rcases Thread.eq_or_other t t' with rfl | rfl
    · rw [setPc_self]
      exact hpacket s
    · rw [setPc_other]
      exact h.packet _ s

/-- A thread puts the packet of a session that nobody answered. -/
theorem Guarded.put (h : q.Guarded) {s : UInt64} {packet : Data} (content : Str)
    (hpc : q.pc t = .haveData s (some packet)) :
    ({ q with puts := q.puts ++ [(s, packet.setContent content)] }.setPc t (.sent s)).Guarded := by
  have hsession : (q.pc t).session = some s := by rw [hpc]; rfl
  have hself : ∀ k, (Pc.sent s).session = some k → k = s := fun k hk => (Option.some.inj hk).symm
  have hnone : putsFor s q.puts = [] := by
    refine h.unsent s (h.held t s hsession) fun t' hsent => ?_
    rcases Thread.eq_or_other t t' with rfl | rfl
    · rw [hpc] at hsent
      exact absurd hsent nofun
    · exact h.alone t s hsession (by rw [hsent]; rfl)
  refine ⟨alone_setPc fun k hk => ?_, h.held_setPc fun k hk => ?_, fun k hk hsent => ?_,
    fun t' k => ?_, fun k => ?_, h.safe.notNull⟩
  · rw [hself k hk]
    exact h.alone t s hsession
  · rw [hself k hk]
    exact h.held t s hsession
  · have hks : k ≠ s := by
      rintro rfl
      exact hsent t (setPc_self _ t _)
    rw [setPc_puts, putsFor_append, putsFor_singleton, if_neg (Ne.symm hks), List.append_nil]
    refine h.unsent k hk fun t' => ?_
    rcases Thread.eq_or_other t t' with rfl | rfl
    · rw [hpc]
      exact nofun
    · have hother := hsent t.other
      rw [setPc_other] at hother
      exact hother
  · rcases Thread.eq_or_other t t' with rfl | rfl
    · rw [setPc_self]
      exact nofun
    · rw [setPc_other]
      exact h.packet _ k
  · rw [setPc_puts, putsFor_append, putsFor_singleton]
    by_cases hks : s = k
    · subst hks
      rw [if_pos rfl, hnone]
      exact Nat.le_refl 1
    · rw [if_neg hks, List.append_nil]
      exact h.safe.once k

/-- A thread erases the session it answered. -/
theorem Guarded.erase (h : q.Guarded) {s : UInt64} (hpc : q.pc t = .sent s) :
    ({ q with sessions := q.sessions.erase s }.setPc t .idle).Guarded := by
  have hother : (q.pc t.other).session ≠ some s := h.alone t s (by rw [hpc]; rfl)
  refine ⟨alone_setPc nofun, fun t' k ht => ?_, fun k hk hsent => ?_, fun t' k => ?_,
    h.safe.once, h.safe.notNull⟩
  · rcases Thread.eq_or_other t t' with rfl | rfl
    · rw [setPc_self] at ht
      exact absurd ht nofun
    · rw [setPc_other] at ht
      have hks : k ≠ s := by
        rintro rfl
        exact hother ht
      rw [setPc_sessions, SessionManager.erase_get, if_neg hks]
      exact h.held _ k ht
  · rw [setPc_sessions, SessionManager.erase_get] at hk
    split at hk
    · exact absurd rfl hk
    · rename_i hks
      refine h.unsent k hk fun t' hsent' => ?_
      rcases Thread.eq_or_other t t' with rfl | rfl
      · rw [hpc] at hsent'
        exact hks (Pc.sent.inj hsent').symm
      · have hother := hsent t.other
        rw [setPc_other] at hother
        exact hother hsent'
  · rcases Thread.eq_or_other t t' with rfl | rfl
    · rw [setPc_self]
      exact nofun
    · rw [setPc_other]
      exact h.packet _ k

/-- A reply changes neither which sessions are held nor what was put. -/
theorem Guarded.appendPayload (h : q.Guarded) (s : UInt64) (value : Str) :
    { q with sessions := (q.sessions.appendPayload s value).2 }.Guarded := by
  have hget : ∀ k, (q.sessions.appendPayload s value).2.get k = none ↔ q.sessions.get k = none := by
    intro k
    rw [SessionManager.appendPayload_get]
    by_cases hk : k = s
    · rw [if_pos hk, hk, Option.map_eq_none_iff]
    · rw [if_neg hk]
  refine ⟨h.alone, fun t k ht => ?_, fun k hk => ?_, h.packet, h.safe.once,
    h.safe.notNull⟩
  · exact fun hc => h.held t k ht ((hget k).1 hc)
  · exact h.unsent k fun hc => hk ((hget k).2 hc)

/-- **An exclusive step keeps the threads apart.** -/
theorem guarded_step (h : q.Guarded) {es : List Act} (hex : Exclusive es q a)
    (hstep : q.step a = some q') : q'.Guarded := by
  obtain ⟨-, hmove⟩ := step_moves hstep
  cases hmove with
  | missing idle gone => exact h
  | @buffer t s idle held =>
    refine h.setPc (fun k => by rw [idle]; exact nofun) ?_ ?_ nofun
    · intro k hk
      rw [← Option.some.inj hk]
      exact hex t s rfl held
    · intro k hk
      rw [← Option.some.inj hk]
      exact held
  | @dataPacket t s pc =>
    have hsession : (q.pc t).session = some s := by rw [pc]; rfl
    refine h.setPc (fun k => by rw [pc]; exact nofun) ?_ ?_ ?_
    · intro k hk
      rw [← Option.some.inj hk]
      exact h.alone t s hsession
    · intro k hk
      rw [← Option.some.inj hk]
      exact h.held t s hsession
    · intro k hk
      have hnone := (Pc.haveData.inj hk).2
      rw [Option.map_eq_none_iff] at hnone
      exact h.held t s hsession hnone
  | @nullWrite t s stale pc => exact absurd pc (h.packet t s)
  | put content pc => exact h.put content pc
  | erase pc => exact h.erase pc
  | appendPayload s value => exact h.appendPayload s value

end

/-! ## The other runs are not -/

/-- The threads that have yet to put the packet of a session. -/
def pending (q : Race) (s : UInt64) : ℕ := (q.pc .timer).pending s + (q.pc .ndn).pending s

/-- Two packets of a session are put or will be, unless a null packet is written to. -/
def Doomed (q : Race) (s : UInt64) : Prop :=
  q.nullWrite = true ∨ 2 ≤ (putsFor s q.puts).length + q.pending s

section

variable {q q' : Race} {t : Thread} {a : Act}

theorem pending_setPc (q : Race) (t : Thread) (pc : Pc) (s : UInt64) :
    (q.setPc t pc).pending s + (q.pc t).pending s = q.pending s + pc.pending s := by
  unfold pending
  cases t
  · have hother : (q.setPc .timer pc).pc .ndn = q.pc .ndn := setPc_other q .timer pc
    rw [setPc_self, hother]
    omega
  · have hother : (q.setPc .ndn pc).pc .timer = q.pc .timer := setPc_other q .ndn pc
    rw [setPc_self, hother]
    omega

theorem pending_le (q : Race) (t : Thread) (s : UInt64) : (q.pc t).pending s ≤ q.pending s := by
  unfold pending
  cases t <;> omega

/-- A thread that moves on with no fewer packets of the session put and to put leaves it
doomed. -/
theorem doomed_setPc {r : Race} {s : UInt64} {pc : Pc} (hpc : r.pc = q.pc)
    (hle : (putsFor s q.puts).length + (q.pc t).pending s ≤
      (putsFor s r.puts).length + pc.pending s)
    (h : 2 ≤ (putsFor s q.puts).length + q.pending s) : (r.setPc t pc).Doomed s := by
  have hpending := pending_setPc r t pc s
  have hsame : r.pending s = q.pending s := by
    unfold pending
    rw [hpc]
  rw [hsame, hpc] at hpending
  refine Or.inr ?_
  rw [setPc_puts]
  omega

/-- What a doomed session has coming cannot be taken back. -/
theorem doomed_step (hstep : q.step a = some q') {s : UInt64} (h : q.Doomed s) : q'.Doomed s := by
  obtain ⟨hnull, hmove⟩ := step_moves hstep
  rcases h with hcrash | hcount
  · rw [hnull] at hcrash
    exact absurd hcrash nofun
  · cases hmove with
    | missing idle gone => exact Or.inr hcount
    | buffer idle held =>
      refine doomed_setPc (q := q) rfl ?_ hcount
      rw [idle]
      exact Nat.le_add_right _ _
    | dataPacket pc =>
      refine doomed_setPc (q := q) rfl ?_ hcount
      rw [pc]
      exact Nat.le_refl _
    | nullWrite pc => exact Or.inl rfl
    | @put t k stale packet content pc =>
      refine doomed_setPc (q := q) rfl ?_ hcount
      have hbefore : (q.pc t).pending s = if k = s then 1 else 0 := by
        rw [pc]
        rfl
      rw [hbefore, putsFor_append, putsFor_singleton, List.length_append]
      by_cases hk : k = s
      · rw [if_pos hk, if_pos hk]
        exact Nat.le_refl _
      · rw [if_neg hk, if_neg hk]
        exact Nat.le_refl _
    | erase pc =>
      refine doomed_setPc (q := q) rfl ?_ hcount
      rw [pc]
      exact Nat.le_refl _
    | appendPayload k value => exact Or.inr hcount

/-- A session that a thread has sent was answered. -/
theorem sent_step (hstep : q.step a = some q')
    (h : ∀ t s, q.pc t = .sent s → putsFor s q.puts ≠ []) (t : Thread) (s : UInt64)
    (hsent : q'.pc t = .sent s) : putsFor s q'.puts ≠ [] := by
  obtain ⟨-, hmove⟩ := step_moves hstep
  have hother : ∀ t' pc, (q.setPc t' pc).pc t = .sent s → pc ≠ .sent s →
      putsFor s q.puts ≠ [] := by
    intro t' pc ht hpc
    rcases Thread.eq_or_other t' t with rfl | rfl
    · rw [setPc_self] at ht
      exact absurd ht hpc
    · rw [setPc_other] at ht
      exact h _ s ht
  cases hmove with
  | missing idle gone => exact h t s hsent
  | buffer idle held => exact hother _ _ hsent nofun
  | dataPacket pc => exact hother _ _ hsent nofun
  | nullWrite pc => exact h t s hsent
  | @put t' k stale packet content pc =>
    rw [setPc_puts, putsFor_append, putsFor_singleton]
    by_cases hk : k = s
    · rw [if_pos hk]
      simp
    · rw [if_neg hk, List.append_nil]
      exact hother t' (.sent k) hsent fun hc => hk (Pc.sent.inj hc)
  | erase pc => exact hother _ .idle hsent nofun
  | appendPayload k value => exact h t s hsent

/-- A thread that gets past `buffer` beside the other one dooms the session. -/
theorem doomed_of_not_exclusive (hstep : q.step a = some q')
    (hsent : ∀ t s, q.pc t = .sent s → putsFor s q.puts ≠ []) {es : List Act}
    (h : ¬ Exclusive es q a) : ∃ s, q'.Doomed s := by
  unfold Exclusive at h
  push Not at h
  obtain ⟨t, s, rfl, hheld, hsession⟩ := h
  obtain ⟨-, hmove⟩ := step_moves hstep
  cases hmove with
  | missing idle gone => exact absurd gone hheld
  | buffer idle held =>
    have hpending := pending_setPc q t (.haveBuffer s) s
    rw [idle, show Pc.idle.pending s = 0 from rfl,
      show (Pc.haveBuffer s).pending s = 1 from if_pos rfl] at hpending
    refine ⟨s, Or.inr ?_⟩
    rw [setPc_puts]
    have hle := pending_le q t.other s
    cases hpc : q.pc t.other with
    | idle =>
      rw [hpc] at hsession
      exact absurd hsession nofun
    | haveBuffer k =>
      rw [hpc] at hsession hle
      rw [show (Pc.haveBuffer k).pending s = 1 from if_pos (Option.some.inj hsession)] at hle
      omega
    | haveData k packet =>
      rw [hpc] at hsession hle
      rw [show (Pc.haveData k packet).pending s = 1 from if_pos (Option.some.inj hsession)] at hle
      omega
    | sent k =>
      rw [hpc] at hsession
      obtain rfl := Option.some.inj hsession
      have hpos := List.length_pos_iff.2 (hsent t.other k hpc)
      omega

end

/-! ## All runs -/

/-- The threads before either calls `send_data`. -/
def start (sessions : SessionManager) : Race := { sessions := sessions }

theorem guarded_start (sessions : SessionManager) : (start sessions).Guarded :=
  ⟨nofun, nofun, fun _ _ _ => rfl, nofun, fun _ => Nat.zero_le 1, rfl⟩

/-- A run that was not exclusive has doomed a session. -/
theorem exclusive_or_doomed {sessions : SessionManager} (es : List Act) (q : Race)
    (hrun : Runs.exec step (start sessions) es = some q) :
    (∀ t s, q.pc t = .sent s → putsFor s q.puts ≠ []) ∧
      (Runs.Along step Exclusive (start sessions) es ∨ ∃ s, q.Doomed s) := by
  refine Runs.history (P := fun es q => (∀ t s, q.pc t = .sent s → putsFor s q.puts ≠ []) ∧
    (Runs.Along step Exclusive (start sessions) es ∨ ∃ s, q.Doomed s)) ?_ ?_ es q hrun
  · exact ⟨nofun, Or.inl (Runs.along_nil _)⟩
  · rintro es q a q' hrun ⟨hsent, hcase⟩ hstep
    refine ⟨sent_step hstep hsent, ?_⟩
    rcases hcase with halong | ⟨s, hs⟩
    · by_cases hex : Exclusive es q a
      · refine Or.inl (Runs.along_concat.2 ⟨halong, fun r hr => ?_⟩)
        rw [hrun, Option.some.injEq] at hr
        rw [← hr]
        exact hex
      · exact Or.inr (doomed_of_not_exclusive hstep hsent hex)
    · exact Or.inr ⟨s, doomed_step hstep hs⟩

/-- **`send_data` is safe exactly in the exclusive runs**: if no thread gets past
`buffer` for a session that the other is sending, every session is answered at most
once and no null packet is written to; and otherwise not, once both calls are over. -/
theorem send_data_race {sessions : SessionManager} {es : List Act} {q : Race}
    (hrun : Runs.exec step (start sessions) es = some q) :
    (Runs.Along step Exclusive (start sessions) es → q.Safe) ∧
      (q.Completed → (q.Safe ↔ Runs.Along step Exclusive (start sessions) es)) := by
  have hsafe : Runs.Along step Exclusive (start sessions) es → q.Safe := by
    intro halong
    refine (Runs.history_along (P := fun _ (q : Race) => q.Guarded) (guarded_start sessions) ?_
      es q halong hrun).safe
    intro es q a q' _ h hex hstep
    exact guarded_step h hex hstep
  refine ⟨hsafe, fun hcompleted => ⟨fun h => ?_, hsafe⟩⟩
  rcases (exclusive_or_doomed es q hrun).2 with halong | ⟨s, hcrash | hcount⟩
  · exact halong
  · rw [h.notNull] at hcrash
    exact absurd hcrash nofun
  · rcases hcompleted with hcrash | hidle
    · rw [h.notNull] at hcrash
      exact absurd hcrash nofun
    · have honce := h.once s
      have hnone : q.pending s = 0 := by
        rw [pending, hidle, hidle]
        rfl
      omega

/-- One thread on its own: the four steps are `Producer.sendData`. -/
theorem send_data_steps {q : Race} {p : Producer} (hsessions : q.sessions = p.sessions)
    (hputs : q.puts = p.face.puts) (hnull : q.nullWrite = false) {t : Thread}
    (hidle : q.pc t = .idle) {s : UInt64} (hheld : p.sessions.get s ≠ none) (stale : Str) :
    ∃ q', Runs.exec step q [.buffer t s, .dataPacket t, .put t stale, .erase t] = some q' ∧
      q'.sessions = (p.finish s).sessions ∧ q'.puts = (p.finish s).face.puts := by
  obtain ⟨session, hs⟩ := Option.ne_none_iff_exists'.1 hheld
  have hget : q.sessions.get s = some session := by rw [hsessions, hs]
  have hbuffer : q.step (.buffer t s) = some (q.setPc t (.haveBuffer s)) := by
    simp only [step, hnull, Bool.false_eq_true, if_false, if_pos hidle,
      SessionManager.buffer_eq, hget, Option.map_some]
  have hdata : (q.setPc t (.haveBuffer s)).step (.dataPacket t) =
      some ((q.setPc t (.haveBuffer s)).setPc t (.haveData s (some session.dataPtr))) := by
    simp only [step, setPc_nullWrite, hnull, Bool.false_eq_true, if_false, setPc_self,
      SessionManager.dataPacket_eq, setPc_sessions, hget, Option.map_some]
  -- the third step, from any state that stands where the second one leads
  have hput : ∀ r : Race, r.nullWrite = false → r.sessions = q.sessions →
      r.pc t = .haveData s (some session.dataPtr) → r.step (.put t stale) =
        some ({ r with puts := r.puts ++ [(s, session.dataPtr.setContent session.buffer)] }.setPc t
          (.sent s)) := by
    intro r hr hrs hpc
    simp only [step, hr, Bool.false_eq_true, if_false, hpc, SessionManager.buffer_eq, hrs, hget,
      Option.map_some, Option.getD_some]
  have herase : ∀ r : Race, r.nullWrite = false → r.pc t = .sent s →
      r.step (.erase t) = some ({ r with sessions := r.sessions.erase s }.setPc t .idle) := by
    intro r hr hpc
    simp only [step, hr, Bool.false_eq_true, if_false, hpc]
  rw [Runs.exec_cons, hbuffer, Option.bind_some, Runs.exec_cons, hdata, Option.bind_some,
    Runs.exec_cons, hput, Option.bind_some, Runs.exec_cons, herase, Option.bind_some,
    Runs.exec_nil]
  · unfold Producer.finish
    rw [hs]
    refine ⟨_, rfl, ?_, ?_⟩
    · show q.sessions.erase s = p.sessions.erase s
      rw [hsessions]
    · show q.puts ++ _ = p.face.puts ++ _
      rw [hputs]
  · exact hnull
  · exact setPc_self _ _ _
  · exact hnull
  · rfl
  · exact setPc_self _ _ _

/-! ## Two runs that are not exclusive -/

/-- A table with one session. -/
def oneSession : SessionManager :=
  SessionManager.add {} 7 { name := [.generic (txt "edge")] }

/-- Both threads look up the buffer before either puts the packet. -/
def bothPut : List Act := [.buffer .timer 7, .buffer .ndn 7, .dataPacket .timer,
  .dataPacket .ndn, .put .timer [], .put .ndn [], .erase .timer, .erase .ndn]

/-- The timer thread is done before the NDN thread looks up the packet. -/
def nullPacket : List Act := [.buffer .timer 7, .buffer .ndn 7, .dataPacket .timer,
  .put .timer [], .erase .timer, .dataPacket .ndn, .put .ndn []]

/-- The first run is completed, so it is not safe unless exclusive. -/
theorem send_data_race_bothPut :
    ∃ q, Runs.exec step (start oneSession) bothPut = some q ∧
      (Runs.Along step Exclusive (start oneSession) bothPut → q.Safe) ∧
      (q.Completed → (q.Safe ↔ Runs.Along step Exclusive (start oneSession) bothPut)) := by
  have hsome : (Runs.exec step (start oneSession) bothPut).isSome = true := by decide +kernel
  obtain ⟨q, hq⟩ := Option.isSome_iff_exists.1 hsome
  exact ⟨q, hq, send_data_race hq⟩

/-- **Two packets are put for one session in the first run, and a null packet is
written to in the second.** -/
theorem send_data_not_safe :
    (∃ q, Runs.exec step (start oneSession) bothPut = some q ∧
      (putsFor 7 q.puts).length = 2 ∧ ¬ q.Safe) ∧
    ∃ q, Runs.exec step (start oneSession) nullPacket = some q ∧ q.nullWrite = true ∧ ¬ q.Safe := by
  constructor
  · have hputs : (Runs.exec step (start oneSession) bothPut).map
        (fun q => (putsFor 7 q.puts).length) = some 2 := by decide +kernel
    obtain ⟨q, hq, htwo⟩ := Option.map_eq_some_iff.1 hputs
    refine ⟨q, hq, htwo, fun h => ?_⟩
    have honce := h.once 7
    omega
  · have hnull : (Runs.exec step (start oneSession) nullPacket).map Race.nullWrite = some true := by
      decide +kernel
    obtain ⟨q, hq, htrue⟩ := Option.map_eq_some_iff.1 hnull
    refine ⟨q, hq, htrue, fun h => ?_⟩
    rw [h.notNull] at htrue
    exact absurd htrue nofun

end Race

end Crowdsensing
