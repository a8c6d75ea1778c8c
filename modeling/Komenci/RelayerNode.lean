import Komenci.Interleaving

/-! The relayer's wallet as the node sees it: the transactions it has accepted, those
in blocks, and the requests whose reply was lost and that may still arrive. How the
node answers is a parameter. -/
namespace Komenci.Relayer

inductive Body (P : Type)
  | payload (p : P)
  | deadLetter
  | selfTransfer
  deriving DecidableEq, Repr

/-- A transaction of the wallet. It stands for its own hash. -/
structure Tx (P : Type) where
  nonce : ℕ
  gasPrice : ℤ
  body : Body P
  deriving DecidableEq, Repr

/-- On whose behalf a transaction is sent. -/
inductive Origin (P ι : Type)
  | earlier
  | submit (i : ι)
  | deadLetter (replaced : Tx P)
  | replenish (i : ι)
  deriving DecidableEq, Repr

structure Request (P ι : Type) where
  tx : Tx P
  origin : Origin P ι
  deriving DecidableEq, Repr

inductive NodeError
  | nonceTooLow
  | gasPriceBelowMinimum
  | other
  deriving DecidableEq, Repr

inductive Answer
  | accept
  | reject (e : NodeError)
  deriving DecidableEq, Repr

/-- The first number from `k` on that is not used, when `fuel` is enough. -/
def firstFree (used : List ℕ) : ℕ → ℕ → ℕ
  | 0, k => k
  | fuel + 1, k => if k ∈ used then firstFree used fuel (k + 1) else k

lemma firstFree_mem {used : List ℕ} {fuel k : ℕ} (h : firstFree used fuel k ∈ used) :
    ∀ j ≤ fuel, k + j ∈ used := by
  induction fuel generalizing k with
  | zero =>
    intro j hj
    obtain rfl : j = 0 := by omega
    exact h
  | succ fuel ih =>
    rw [firstFree] at h
    split_ifs at h with hk
    · intro j hj
      cases j with
      | zero => exact hk
      | succ j =>
        have hj' := ih h j (by omega)
        rwa [Nat.add_assoc, Nat.add_comm 1 j] at hj'
    · exact absurd h hk

lemma firstFree_not_mem (used : List ℕ) (k : ℕ) : firstFree used used.length k ∉ used := by
  intro h
  have hsub : (List.range' k (used.length + 1)) ⊆ used := by
    intro n hn
    obtain ⟨j, hj, rfl⟩ := List.mem_range'.mp hn
    rw [Nat.one_mul]
    exact firstFree_mem h j (by omega)
  have hle := (List.subperm_of_subset (List.nodup_range' 1) hsub).length_le
  simp at hle

lemma le_firstFree (used : List ℕ) (fuel k : ℕ) : k ≤ firstFree used fuel k := by
  induction fuel generalizing k with
  | zero => exact le_rfl
  | succ fuel ih =>
    rw [firstFree]
    split_ifs
    · exact (Nat.le_succ k).trans (ih (k + 1))
    · exact le_rfl

lemma firstFree_of_not_mem {used : List ℕ} {fuel k : ℕ} (h : k ∉ used) :
    firstFree used fuel k = k := by
  cases fuel with
  | zero => rfl
  | succ fuel => simp [firstFree, h]

lemma firstFree_succ {used : List ℕ} {fuel k : ℕ} (hf : 0 < fuel) (hk : k ∈ used)
    (h : k + 1 ∉ used) : firstFree used fuel k = k + 1 := by
  cases fuel with
  | zero => omega
  | succ fuel => simp [firstFree, hk, firstFree_of_not_mem h]

structure Node (P ι : Type) where
  accepted : List (Request P ι)
  included : List (Tx P)
  /-- The count of transactions the node reports, the next nonce. -/
  next : ℕ
  /-- Requests on their way whose sender has stopped waiting. -/
  limbo : List (Request P ι)
  deriving DecidableEq, Repr

namespace Node
variable {P ι : Type}

def nonces (n : Node P ι) : List ℕ := n.accepted.map fun r => r.tx.nonce

/-- A transaction with this nonce is in a block. -/
def Mined (n : Node P ι) (nonce : ℕ) : Prop := ∃ t ∈ n.included, t.nonce = nonce

instance (n : Node P ι) (nonce : ℕ) : Decidable (n.Mined nonce) :=
  inferInstanceAs (Decidable (∃ t ∈ n.included, _))

/-- The node has accepted the transaction, whoever sent it. -/
def Holds (n : Node P ι) (t : Tx P) : Prop := ∃ r ∈ n.accepted, r.tx = t

instance [DecidableEq P] (n : Node P ι) (t : Tx P) : Decidable (n.Holds t) :=
  inferInstanceAs (Decidable (∃ r ∈ n.accepted, _))

def accept (n : Node P ι) (r : Request P ι) : Node P ι where
  accepted := n.accepted ++ [r]
  included := n.included
  next := firstFree (n.nonces ++ [r.tx.nonce]) (n.nonces ++ [r.tx.nonce]).length n.next
  limbo := n.limbo

def handle (n : Node P ι) (r : Request P ι) : Answer → Node P ι
  | .accept => n.accept r
  | .reject _ => n

def lose (n : Node P ι) (r : Request P ι) : Node P ι := { n with limbo := n.limbo ++ [r] }

/-- A block takes up one of the accepted transactions, one for each nonce. -/
def mine [DecidableEq P] (n : Node P ι) (t : Tx P) : Option (Node P ι) :=
  if n.Holds t ∧ ¬ n.Mined t.nonce then
    some { n with included := n.included ++ [t] }
  else none

@[simp] lemma accept_accepted (n : Node P ι) (r : Request P ι) :
    (n.accept r).accepted = n.accepted ++ [r] := rfl

@[simp] lemma accept_included (n : Node P ι) (r : Request P ι) :
    (n.accept r).included = n.included := rfl

@[simp] lemma accept_limbo (n : Node P ι) (r : Request P ι) :
    (n.accept r).limbo = n.limbo := rfl

@[simp] lemma lose_accepted (n : Node P ι) (r : Request P ι) :
    (n.lose r).accepted = n.accepted := rfl

@[simp] lemma lose_included (n : Node P ι) (r : Request P ι) :
    (n.lose r).included = n.included := rfl

@[simp] lemma lose_next (n : Node P ι) (r : Request P ι) : (n.lose r).next = n.next := rfl

@[simp] lemma lose_limbo (n : Node P ι) (r : Request P ι) :
    (n.lose r).limbo = n.limbo ++ [r] := rfl

@[simp] lemma handle_included (n : Node P ι) (r : Request P ι) (a : Answer) :
    (n.handle r a).included = n.included := by cases a <;> rfl

@[simp] lemma handle_limbo (n : Node P ι) (r : Request P ι) (a : Answer) :
    (n.handle r a).limbo = n.limbo := by cases a <;> rfl

@[simp] lemma nonces_accept (n : Node P ι) (r : Request P ι) :
    (n.accept r).nonces = n.nonces ++ [r.tx.nonce] := by simp [nonces]

lemma handle_eq (n : Node P ι) (r : Request P ι) (a : Answer) :
    n.handle r a = { n.handle r a with limbo := n.limbo } := by cases a <;> rfl

lemma mem_handle {n : Node P ι} {r q : Request P ι} {a : Answer} :
    q ∈ (n.handle r a).accepted ↔ q ∈ n.accepted ∨ a = .accept ∧ q = r := by
  cases a with
  | accept => simp [handle]
  | reject e => simp [handle]

lemma subset_handle (n : Node P ι) (r : Request P ι) (a : Answer) :
    n.accepted ⊆ (n.handle r a).accepted := fun _ hq => mem_handle.mpr (.inl hq)

lemma mine_eq_some [DecidableEq P] {n m : Node P ι} {t : Tx P} (h : n.mine t = some m) :
    n.Holds t ∧ ¬ n.Mined t.nonce ∧
      m = { n with included := n.included ++ [t] } := by
  rw [mine] at h
  split_ifs at h with hc
  exact ⟨hc.1, hc.2, (Option.some.inj h).symm⟩

lemma Holds.mono {n m : Node P ι} {t : Tx P} (hs : n.accepted ⊆ m.accepted) (h : n.Holds t) :
    m.Holds t := by
  obtain ⟨r, hr, ht⟩ := h
  exact ⟨r, hs hr, ht⟩

lemma Holds.nonce_mem {n : Node P ι} {t : Tx P} (h : n.Holds t) : t.nonce ∈ n.nonces := by
  obtain ⟨r, hr, rfl⟩ := h
  exact List.mem_map_of_mem hr

lemma holds_accept (n : Node P ι) (r : Request P ι) : (n.accept r).Holds r.tx := ⟨r, by simp, rfl⟩

lemma Mined.mono {n m : Node P ι} {k : ℕ} (hs : n.included ⊆ m.included) (h : n.Mined k) :
    m.Mined k := by
  obtain ⟨t, ht, hk⟩ := h
  exact ⟨t, hs ht, hk⟩

/-- The reported count is never a nonce in use. -/
lemma next_accept_not_mem (n : Node P ι) (r : Request P ι) :
    (n.accept r).next ∉ (n.accept r).nonces := by
  rw [nonces_accept]
  exact firstFree_not_mem _ _

lemma next_le_accept (n : Node P ι) (r : Request P ι) : n.next ≤ (n.accept r).next :=
  le_firstFree _ _ _

lemma next_le_handle (n : Node P ι) (r : Request P ι) (a : Answer) :
    n.next ≤ (n.handle r a).next := by
  cases a with
  | accept => exact n.next_le_accept r
  | reject e => exact le_rfl

/-- While every nonce in use is below the count, the next one moves it by one. -/
lemma next_accept_of_eq {n : Node P ι} {r : Request P ι} (hn : ∀ k ∈ n.nonces, k < n.next)
    (hr : r.tx.nonce = n.next) : (n.accept r).next = n.next + 1 := by
  refine firstFree_succ (by simp) (by simp [hr]) ?_
  simp only [List.mem_append, List.mem_singleton, hr, not_or]
  exact ⟨fun hm => absurd (hn _ hm) (by omega), by omega⟩

lemma next_accept_of_lt {n : Node P ι} {r : Request P ι} (hn : ∀ k ∈ n.nonces, k < n.next)
    (hr : r.tx.nonce < n.next) : (n.accept r).next = n.next := by
  refine firstFree_of_not_mem ?_
  simp only [List.mem_append, List.mem_singleton, not_or]
  exact ⟨fun hm => absurd (hn _ hm) (by omega), by omega⟩

/-- Accepting no more than the next nonce keeps the nonces in use below the count. -/
lemma below_accept {n : Node P ι} {r : Request P ι} (hn : ∀ k ∈ n.nonces, k < n.next)
    (hr : r.tx.nonce ≤ n.next) : ∀ k ∈ (n.accept r).nonces, k < (n.accept r).next := by
  intro k hk
  rw [nonces_accept, List.mem_append, List.mem_singleton] at hk
  rcases hr.lt_or_eq with hlt | heq
  · rw [next_accept_of_lt hn hlt]
    rcases hk with hk | rfl
    · exact hn k hk
    · exact hlt
  · rw [next_accept_of_eq hn heq]
    rcases hk with hk | rfl
    · exact (hn k hk).trans (Nat.lt_succ_self _)
    · exact Nat.lt_succ_of_le hr

end Node

/-- What the node may answer to a transaction, and what it may report as the count. -/
structure Policy (P ι : Type) where
  answers : Node P ι → Tx P → Answer → Bool
  counts : Node P ι → ℕ → Bool

/-- A common node: it refuses a mined nonce, a resend, and a replacement that does
not raise the price by a tenth. -/
def Policy.standardAnswer {P ι : Type} [DecidableEq P] (n : Node P ι) (t : Tx P) : Answer :=
  if n.Mined t.nonce then .reject .nonceTooLow
  else if ∃ r ∈ n.accepted, r.tx = t ∨ r.tx.nonce = t.nonce ∧ 10 * t.gasPrice < 11 * r.tx.gasPrice
  then .reject .other
  else .accept

def Policy.standard {P ι : Type} [DecidableEq P] : Policy P ι where
  answers n t a := decide (a = Policy.standardAnswer n t)
  counts n k := decide (k = n.next)

lemma Policy.standard_accept {P ι : Type} [DecidableEq P] (n : Node P ι) (t : Tx P)
    (h : Policy.standard.answers n t .accept = true) : ¬ n.Mined t.nonce := by
  intro hm
  have h := of_decide_eq_true h
  rw [standardAnswer, if_pos hm] at h
  cases h

lemma Policy.standard_fresh {P ι : Type} [DecidableEq P] (n : Node P ι) (t : Tx P)
    (h : Policy.standard.answers n t .accept = true) : ¬ n.Holds t := by
  rintro ⟨r, hr, ht⟩
  have h := of_decide_eq_true h
  unfold standardAnswer at h
  split_ifs at h with hm hd
  exact hd ⟨r, hr, .inl ht⟩

lemma Policy.standard_counts {P ι : Type} [DecidableEq P] (n : Node P ι) (k : ℕ)
    (h : Policy.standard.counts n k = true) : k = n.next := of_decide_eq_true h

lemma Policy.standard_nonceTooLow {P ι : Type} [DecidableEq P] (n : Node P ι) (t : Tx P)
    (h : Policy.standard.answers n t (.reject .nonceTooLow) = true) : n.Mined t.nonce := by
  by_contra hm
  have h := of_decide_eq_true h
  rw [standardAnswer, if_neg hm] at h
  split_ifs at h
  cases h

end Komenci.Relayer
