import Mathlib.Logic.Function.Basic

/-!
# Programs at the ends of a byte stream

`Prog`: a program that talks over a stream, as the states it can be in. The two loops of such a
program, "send all of this" (`sending`) and "receive exactly so much" (`receiving`), are states
that a call of `send` or `recv` leads on from (`sendTurn`, `recvTurn`); a call may transfer a part,
be interrupted, fail, or find the stream closed. Everything else a program asks of its surroundings
is a `query`.

`Sends` and `Receives` say which bytes a program sends or takes, and what it is then. They do not
speak of calls: by `Sends.sent` and
`Receives.received`, they hold however the bytes are split.
-/

namespace Stream

/-- What a call of `send` returned. -/
inductive SendResult
  | sent (n : Nat)
  | interrupted
  | failed (error : String)

/-- What a call of `recv` returned; no bytes at the end of the stream. -/
inductive RecvResult (β : Type)
  | received (chunk : List β)
  | interrupted
  | failed (error : String)

/-- What the loops throw. -/
structure Faults (ε : Type) where
  sendFailed : String → ε
  sentNothing : ε
  recvFailed : String → ε
  cutOff : ε

/-- The bytes are of type `β`, the errors of type `ε`; a query `q` is answered by an `A q`. -/
inductive Prog (β ε : Type) {Q : Type} (A : Q → Type) (α : Type)
  | ret (a : α)
  | throw (e : ε)
  /-- `data` is still to be sent. -/
  | sending (data : List β) (next : Prog β ε A α)
  /-- Of the `size` bytes, `got` have come; `next` is given all of them, or none at the end. -/
  | receiving (size : Nat) (got : List β) (next : Option (List β) → Prog β ε A α)
  | query (q : Q) (next : A q → Prog β ε A α)

namespace Prog

section
variable {β ε Q : Type} {A : Q → Type} {α γ δ : Type}

protected def bind : Prog β ε A α → (α → Prog β ε A γ) → Prog β ε A γ
  | ret a, f => f a
  | throw e, _ => throw e
  | sending data next, f => sending data (next.bind f)
  | receiving size got next, f => receiving size got fun r => (next r).bind f
  | query q next, f => query q fun a => (next a).bind f

instance : Monad (Prog β ε A) where
  pure := ret
  bind := Prog.bind

protected theorem bind_ret (p : Prog β ε A α) : p.bind ret = p := by
  induction p with
  | ret a => rfl
  | throw e => rfl
  | sending data next ih => exact congrArg _ ih
  | receiving size got next ih => exact congrArg _ (funext ih)
  | query q next ih => exact congrArg _ (funext ih)

protected theorem bind_assoc (p : Prog β ε A α) (f : α → Prog β ε A γ) (g : γ → Prog β ε A δ) :
    (p.bind f).bind g = p.bind fun a => (f a).bind g := by
  induction p with
  | ret a => rfl
  | throw e => rfl
  | sending data next ih => exact congrArg _ ih
  | receiving size got next ih => exact congrArg _ (funext ih)
  | query q next ih => exact congrArg _ (funext ih)

instance : LawfulMonad (Prog β ε A) :=
  LawfulMonad.mk' _ Prog.bind_ret (fun _ _ => rfl) Prog.bind_assoc

/-! ## The loops -/

/-- The loop that sends, at its head. -/
def sendLoop (data : List β) (next : Prog β ε A α) : Prog β ε A α :=
  if data.length > 0 then sending data next else next

/-- A turn of the loop. -/
def sendTurn (faults : Faults ε) (result : SendResult) (data : List β) (next : Prog β ε A α) :
    Prog β ε A α :=
  match result with
  | .interrupted => sending data next
  | .failed error => throw (faults.sendFailed error)
  | .sent 0 => throw faults.sentNothing
  | .sent n => sendLoop (data.drop n) next

/-- The loop that receives, at its head. -/
def recvLoop (size : Nat) (got : List β) (next : Option (List β) → Prog β ε A α) :
    Prog β ε A α :=
  if got.length < size then receiving size got next else next (some got)

/-- A turn of the loop. -/
def recvTurn (faults : Faults ε) (result : RecvResult β) (size : Nat) (got : List β)
    (next : Option (List β) → Prog β ε A α) : Prog β ε A α :=
  match result with
  | .interrupted => receiving size got next
  | .failed error => throw (faults.recvFailed error)
  | .received [] => if got.length = 0 then next none else throw faults.cutOff
  | .received chunk => recvLoop size (got ++ chunk) next

theorem recvTurn_received (faults : Faults ε) {chunk : List β} (ne : chunk ≠ []) (size : Nat)
    (got : List β) (next : Option (List β) → Prog β ε A α) :
    recvTurn faults (.received chunk) size got next = recvLoop size (got ++ chunk) next := by
  cases chunk with
  | nil => exact absurd rfl ne
  | cons byte chunk => rfl

def sendAll (data : List β) : Prog β ε A Unit := sendLoop data (ret ())

def recvExactOrEof (size : Nat) : Prog β ε A (Option (List β)) := recvLoop size [] ret

def ask (q : Q) : Prog β ε A (A q) := query q ret

theorem sendAll_bind (data : List β) (f : Unit → Prog β ε A α) :
    sendAll data >>= f = sendLoop data (f ()) := by
  show Prog.bind (sendLoop data (ret ())) f = _
  unfold sendLoop
  split <;> rfl

theorem recvExactOrEof_bind (size : Nat) (f : Option (List β) → Prog β ε A α) :
    recvExactOrEof size >>= f = recvLoop size [] f := by
  show Prog.bind (recvLoop size [] ret) f = _
  unfold recvLoop
  split <;> rfl

/-- The loops stand at their calls as long as something is left to do. -/
theorem sendLoop_of_ne_nil {data : List β} (ne : data ≠ []) (next : Prog β ε A α) :
    sendLoop data next = sending data next := if_pos (List.length_pos_iff.2 ne)

theorem recvLoop_of_lt {size : Nat} {got : List β} (lt : got.length < size)
    (next : Option (List β) → Prog β ε A α) : recvLoop size got next = receiving size got next :=
  if_pos lt

theorem recvLoop_of_not_lt {size : Nat} {got : List β} (h : ¬ got.length < size)
    (next : Option (List β) → Prog β ε A α) : recvLoop size got next = next (some got) :=
  if_neg h

/-- It is about to call `recv`. -/
def isReceiving : Prog β ε A α → Bool
  | receiving _ _ _ => true
  | _ => false

end

/-! ## Steps -/

section
variable {β ε Q : Type} {A : Q → Type} {α : Type} (faults : Faults ε)

/-- A call of `send` that took `chunk`. -/
inductive SendsChunk : Prog β ε A α → List β → Prog β ε A α → Prop
  | sent {data : List β} {next : Prog β ε A α} {n : Nat} (pos : 0 < n) (le : n ≤ data.length) :
      SendsChunk (sending data next) (data.take n) (sendTurn faults (.sent n) data next)

/-- A call of `recv` that returned `chunk`. -/
inductive ReceivesChunk : Prog β ε A α → List β → Prog β ε A α → Prop
  | received {size : Nat} {got chunk : List β} {next : Option (List β) → Prog β ε A α}
      (ne : chunk ≠ []) (le : chunk.length ≤ size - got.length) :
      ReceivesChunk (receiving size got next) chunk
        (recvTurn faults (.received chunk) size got next)

/-- A call that was interrupted. -/
inductive Interrupted : Prog β ε A α → Prog β ε A α → Prop
  | send {data : List β} {next : Prog β ε A α} :
      Interrupted (sending data next) (sendTurn faults .interrupted data next)
  | recv {size : Nat} {got : List β} {next : Option (List β) → Prog β ε A α} :
      Interrupted (receiving size got next) (recvTurn faults .interrupted size got next)

/-- A query, answered from a state of the surroundings, which it may change. -/
inductive Asks {σ : Type} (answer : σ → (q : Q) → A q × σ) :
    σ → Prog β ε A α → σ → Prog β ε A α → Prop
  | answered {s : σ} {q : Q} {next : A q → Prog β ε A α} :
      Asks answer s (query q next) (answer s q).2 (next (answer s q).1)

variable {faults}

section
variable {p p' : Prog β ε A α} {chunk : List β}

theorem SendsChunk.sending (h : SendsChunk faults p chunk p') :
    ∃ data next, p = sending data next := by
  obtain ⟨_, _⟩ := h
  exact ⟨_, _, rfl⟩

theorem ReceivesChunk.receiving (h : ReceivesChunk faults p chunk p') :
    ∃ size got next, p = receiving size got next := by
  obtain ⟨_, _⟩ := h
  exact ⟨_, _, _, rfl⟩

theorem ReceivesChunk.ne_nil (h : ReceivesChunk faults p chunk p') : chunk ≠ [] := by
  obtain ⟨ne, _⟩ := h
  exact ne

theorem SendsChunk.ne_nil (h : SendsChunk faults p chunk p') : chunk ≠ [] := by
  obtain ⟨hpos, hle⟩ := h
  rename_i data _ n
  rw [← List.length_pos_iff, List.length_take]
  omega

/-- Nothing is received from an empty stream. -/
theorem ReceivesChunk.stream_ne_nil (h : ReceivesChunk faults p chunk p') {stream rest : List β}
    (arrived : stream = chunk ++ rest) : stream ≠ [] := by
  rintro rfl
  exact h.ne_nil (List.append_eq_nil_iff.1 arrived.symm).1

end

theorem Asks.query {σ : Type} {answer : σ → (q : Q) → A q × σ} {s s' : σ} {p p' : Prog β ε A α}
    (h : Asks answer s p s' p') : ∃ q next, p = query q next := by
  obtain ⟨⟩ := h
  exact ⟨_, _, rfl⟩

/-- A call of `send` may take one byte. -/
theorem SendsChunk.exists (faults : Faults ε) {data : List β} (next : Prog β ε A α)
    (ne : data ≠ []) : ∃ chunk p', chunk.length = 1 ∧
      SendsChunk faults (Prog.sending data next) chunk p' := by
  have hpos := List.length_pos_iff.2 ne
  refine ⟨_, _, ?_, .sent Nat.zero_lt_one hpos⟩
  rw [List.length_take]
  omega

/-- A call of `recv` may return one byte. -/
theorem ReceivesChunk.exists (faults : Faults ε) {size : Nat} {got : List β}
    (next : Option (List β) → Prog β ε A α) (b : β) (lt : got.length < size) :
    ∃ p', ReceivesChunk faults (Prog.receiving size got next) [b] p' :=
  ⟨_, .received (List.cons_ne_nil b []) (by rw [List.length_singleton]; omega)⟩

/-- An interrupted call is made again. -/
theorem Interrupted.eq {p p' : Prog β ε A α} (h : Interrupted faults p p') : p' = p := by
  cases h <;> rfl

end

/-! ## Calls with something to do -/

section
variable {β ε Q : Type} {A : Q → Type} {α γ : Type} {faults : Faults ε}

/-- No call of `send` that it may come to is for no bytes, and no call of `recv` either. -/
def Live : Prog β ε A α → Prop
  | ret _ => True
  | throw _ => True
  | sending data next => data ≠ [] ∧ Live next
  | receiving size got next => got.length < size ∧ ∀ r, Live (next r)
  | query _ next => ∀ a, Live (next a)

namespace Live

variable {p p' : Prog β ε A α} {chunk : List β}

theorem sendLoop {next : Prog β ε A α} (h : Live next) (data : List β) :
    Live (Prog.sendLoop data next) := by
  unfold Prog.sendLoop
  split
  · rename_i hpos
    exact ⟨List.length_pos_iff.1 hpos, h⟩
  · exact h

theorem recvLoop {next : Option (List β) → Prog β ε A α} (h : ∀ r, Live (next r)) (size : Nat)
    (got : List β) : Live (Prog.recvLoop size got next) := by
  unfold Prog.recvLoop
  split
  · rename_i hlt
    exact ⟨hlt, h⟩
  · exact h _

theorem sendAll {f : Unit → Prog β ε A α} (h : Live (f ())) (data : List β) :
    Live (Prog.sendAll data >>= f) := by
  rw [sendAll_bind]
  exact h.sendLoop data

theorem recvExactOrEof {f : Option (List β) → Prog β ε A α} (h : ∀ r, Live (f r)) (size : Nat) :
    Live (Prog.recvExactOrEof size >>= f) := by
  rw [recvExactOrEof_bind]
  exact recvLoop h size []

theorem sendTurn {data : List β} {next : Prog β ε A α} (h : Live (sending data next))
    (result : SendResult) : Live (Prog.sendTurn faults result data next) := by
  cases result with
  | sent n =>
    cases n with
    | zero => trivial
    | succ n => exact h.2.sendLoop _
  | interrupted => exact h
  | failed error => trivial

theorem recvTurn {size : Nat} {got : List β} {next : Option (List β) → Prog β ε A α}
    (h : Live (receiving size got next)) (result : RecvResult β) :
    Live (Prog.recvTurn faults result size got next) := by
  cases result with
  | received chunk =>
    cases chunk with
    | nil =>
      simp only [Prog.recvTurn]
      split
      · exact h.2 none
      · trivial
    | cons b chunk => exact recvLoop h.2 size _
  | interrupted => exact h
  | failed error => trivial

theorem sent (h : Live p) (hc : SendsChunk faults p chunk p') : Live p' := by
  obtain ⟨_, _⟩ := hc
  exact h.sendTurn _

theorem received (h : Live p) (hc : ReceivesChunk faults p chunk p') : Live p' := by
  obtain ⟨_, _⟩ := hc
  exact h.recvTurn _

theorem interrupted (h : Live p) (hi : Interrupted faults p p') : Live p' := by
  rw [hi.eq]
  exact h

end Live

end

/-! ## What a program sends -/

section
variable {β ε Q σ : Type} {A : Q → Type} {α γ : Type} {faults : Faults ε}
  {answer : σ → (q : Q) → A q × σ}

/-- From the state `s`, `p` sends `out`, asking `k` queries before its last byte, and is then `q`,
with the surroundings in the state `s'`. -/
inductive Sends (answer : σ → (q : Q) → A q × σ) :
    σ → Prog β ε A α → Nat → List β → σ → Prog β ε A α → Prop
  | done {s : σ} {p : Prog β ε A α} : Sends answer s p 0 [] s p
  | send {s s' : σ} {data out : List β} {next q : Prog β ε A α} {k : Nat} (ne : data ≠ [])
      (rest : Sends answer s next k out s' q) :
      Sends answer s (sending data next) k (data ++ out) s' q
  | ask {s s' : σ} {query' : Q} {out : List β} {next : A query' → Prog β ε A α}
      {q : Prog β ε A α} {k : Nat} (ne : out ≠ [])
      (rest : Sends answer (answer s query').2 (next (answer s query').1) k out s' q) :
      Sends answer s (query query' next) (k + 1) out s' q

namespace Sends

variable {s s' : σ} {p p' q : Prog β ε A α} {k : Nat} {out chunk : List β}

theorem loop {data : List β} {next : Prog β ε A α} (h : Sends answer s next k out s' q) :
    Sends answer s (sendLoop data next) k (data ++ out) s' q := by
  unfold sendLoop
  split
  · rename_i hpos
    exact .send (List.length_pos_iff.1 hpos) h
  · rename_i hpos
    obtain rfl := List.eq_nil_of_length_eq_zero (l := data) (by omega)
    exact h

theorem sendAll {data : List β} {f : Unit → Prog β ε A α} (h : Sends answer s (f ()) k out s' q) :
    Sends answer s (sendAll data >>= f) k (data ++ out) s' q := by
  rw [sendAll_bind]
  exact loop h

/-- Nothing more is sent: the program has arrived. -/
theorem of_nil (h : Sends answer s p k [] s' q) : k = 0 ∧ s' = s ∧ q = p := by
  generalize hout : ([] : List β) = out at h
  cases h with
  | done => exact ⟨rfl, rfl, rfl⟩
  | send ne _ => exact absurd (List.append_eq_nil_iff.1 hout.symm).1 ne
  | ask ne _ => exact absurd hout.symm ne

/-- A part of what is left is sent by one call. -/
theorem sent (h : Sends answer s p k out s' q) (hq : ∀ data next, q ≠ sending data next)
    (hc : SendsChunk faults p chunk p') :
    ∃ out', out = chunk ++ out' ∧ chunk ≠ [] ∧ Sends answer s p' k out' s' q := by
  have hne := hc.ne_nil
  obtain ⟨hpos, hle⟩ := hc
  rename_i data next n
  cases h with
  | done => exact absurd rfl (hq data next)
  | @send _ _ _ out _ _ _ ne rest =>
    refine ⟨data.drop n ++ out, ?_, hne, ?_⟩
    · rw [← List.append_assoc, List.take_append_drop]
    · obtain ⟨n, rfl⟩ := Nat.exists_eq_succ_of_ne_zero (Nat.ne_of_gt hpos)
      exact loop rest

theorem asked {s₁ : σ} (h : Sends answer s p k out s' q) (hq : ∀ query' next, q ≠ query query' next)
    (ha : Asks answer s p s₁ p') : ∃ k', k = k' + 1 ∧ Sends answer s₁ p' k' out s' q := by
  obtain ⟨⟩ := ha
  cases h with
  | done => exact absurd rfl (hq _ _)
  | ask _ rest => exact ⟨_, rfl, rest⟩

/-- As long as a byte is left, the program asks a query or is sending. -/
theorem moves (h : Sends answer s p k out s' q) (ne : out ≠ []) :
    (∃ data next, data ≠ [] ∧ p = sending data next) ∨ ∃ query' next, p = query query' next := by
  cases h with
  | done => exact absurd rfl ne
  | send ne' _ => exact .inl ⟨_, _, ne', rfl⟩
  | ask _ _ => exact .inr ⟨_, _, rfl⟩

end Sends

/-! ## What a program takes -/

/-- Given `inp`, `p` takes all of it and is then `q`. -/
inductive Receives : Prog β ε A α → List β → Prog β ε A α → Prop
  | done {p : Prog β ε A α} : Receives p [] p
  | recv {size : Nat} {got bs inp : List β} {next : Option (List β) → Prog β ε A α}
      {q : Prog β ε A α} (lt : got.length < size) (eq : (got ++ bs).length = size)
      (rest : Receives (next (some (got ++ bs))) inp q) :
      Receives (receiving size got next) (bs ++ inp) q

namespace Receives

variable {p p' q : Prog β ε A α} {chunk inp : List β}

theorem loop {size : Nat} {got bs : List β} {next : Option (List β) → Prog β ε A α}
    (eq : (got ++ bs).length = size) (h : Receives (next (some (got ++ bs))) inp q) :
    Receives (recvLoop size got next) (bs ++ inp) q := by
  unfold recvLoop
  split
  · rename_i hlt
    exact .recv hlt eq h
  · rename_i hlt
    rw [List.length_append] at eq
    obtain rfl := List.eq_nil_of_length_eq_zero (l := bs) (by omega)
    rw [List.append_nil] at h
    exact h

theorem recvExactOrEof {size : Nat} {bs : List β} (eq : bs.length = size)
    {f : Option (List β) → Prog β ε A α} (h : Receives (f (some bs)) inp q) :
    Receives (recvExactOrEof size >>= f) (bs ++ inp) q := by
  rw [recvExactOrEof_bind]
  exact loop eq h

theorem of_nil (h : Receives p [] q) : q = p := by
  generalize hinp : ([] : List β) = inp at h
  cases h with
  | done => rfl
  | recv lt eq _ =>
    rw [List.length_append] at eq
    obtain ⟨rfl, _⟩ := List.append_eq_nil_iff.1 hinp.symm
    simp at eq
    omega

/-- A part of what is to come is taken by one call. -/
theorem received (h : Receives p (chunk ++ inp) q) (hc : ReceivesChunk faults p chunk p') :
    Receives p' inp q := by
  obtain ⟨ne, le⟩ := hc
  rename_i size got next
  generalize hinp : chunk ++ inp = whole at h
  cases h with
  | done => exact absurd (List.append_eq_nil_iff.1 hinp).1 ne
  | @recv _ _ bs rest' _ _ lt eq rest =>
    rw [List.length_append] at eq
    obtain ⟨bs', rfl, rfl⟩ : ∃ bs', bs = chunk ++ bs' ∧ inp = bs' ++ rest' := by
      rcases List.append_eq_append_iff.1 hinp with h | h
      · exact h
      · -- the chunk is no longer than what the loop still waits for
        obtain ⟨extra, rfl, rfl⟩ := h
        rw [List.length_append] at le
        obtain rfl := List.eq_nil_of_length_eq_zero (l := extra) (by omega)
        exact ⟨[], by simp, rfl⟩
    rw [recvTurn_received faults ne]
    rw [← List.append_assoc] at rest
    exact loop (by simp at eq ⊢; omega) rest

/-- As long as a byte is to come, the program is receiving. -/
theorem moves (h : Receives p inp q) (ne : inp ≠ []) :
    ∃ size got next, got.length < size ∧ p = receiving size got next := by
  cases h with
  | done => exact absurd rfl ne
  | recv lt _ _ => exact ⟨_, _, _, lt, rfl⟩

end Receives

end

end Prog

end Stream
