import Komenci.SessionMeta
import Komenci.WalletMethodFilter

/-! Which row the session of an account is found in. A spelling of the account is normalised
when the row is created and only trimmed when it is looked up. -/
namespace Komenci.Sessions
open HexText Wallet

structure SessionRow extends Session where
  createdAt : ℕ

/-- The table of the sessions. No id is given out twice. -/
structure Table where
  rows : List SessionRow
  nextId : ℕ
  /-- The column of the metadata has its default. The entity declares one, the migration none. -/
  hasDefault : Bool
  fresh : ∀ r ∈ rows, r.id < nextId
  distinct : (rows.map fun r => r.id).Nodup

/-- The row of `create`. -/
def Table.newSession (t : Table) (externalAccount : Text) (now : ℕ) : SessionRow :=
  let metadata := if t.hasDefault then some ⟨none, some fun _ => none⟩ else none
  ⟨⟨t.nextId, normalizeAddress externalAccount, metadata⟩, now⟩

lemma Table.newSession_created (t : Table) (externalAccount : Text) (now : ℕ) :
    (t.newSession externalAccount now).Created := by
  cases h : t.hasDefault with
  | false => exact .inl (by simp [newSession, h])
  | true => exact .inr (by simp [newSession, h])

def Table.create (t : Table) (externalAccount : Text) (now : ℕ) : SessionRow × Table :=
  (t.newSession externalAccount now,
    { rows := t.rows ++ [t.newSession externalAccount now]
      nextId := t.nextId + 1
      hasDefault := t.hasDefault
      fresh := by
        intro r hr
        rcases List.mem_append.mp hr with hr | hr
        · exact (t.fresh r hr).trans (Nat.lt_succ_self _)
        · rw [List.mem_singleton.mp hr]
          exact Nat.lt_succ_self _
      distinct := by
        rw [List.map_append, List.map_singleton, List.nodup_append]
        refine ⟨t.distinct, List.nodup_singleton _, ?_⟩
        intro i hi j hj hij
        obtain ⟨r, hr, rfl⟩ := List.mem_map.mp hi
        have hlt := t.fresh r hr
        rw [hij, List.mem_singleton.mp hj] at hlt
        exact Nat.lt_irrefl _ hlt })

/-- The database orders by `createdAt`; which of several equal ones is first is its choice. -/
def Table.findLastForAccount (t : Table) (account : Text) : Option SessionRow :=
  (t.rows.filter fun r => r.externalAccount = trimLeading0x account).argmax SessionRow.createdAt

/-- `none` is a read that throws. -/
def hasQuota (config : TrackedAction → ℚ) (session : Session) : Option Bool :=
  (quotaLeft config session).map fun quota =>
    TrackedAction.values.all fun action => (quota action).any fun q => 0 < q

def Table.findOrCreateForAccount (config : TrackedAction → ℚ) (t : Table) (externalAccount : Text)
    (now : ℕ) : Option (SessionRow × Table) :=
  match t.findLastForAccount externalAccount with
  | none => some (t.create externalAccount now)
  | some existingSession =>
    (hasQuota config existingSession.toSession).map fun left =>
      if left then (existingSession, t) else t.create externalAccount now

/-- The calls of a sequential run. `write` is a request that counts or deploys. -/
inductive Op
  | findOrCreateForAccount (externalAccount : Text) (now : ℕ)
  | write (id : ℕ) (call : Call)
  | removeSession (id : ℕ)

def SessionRow.after (cfg : AppConfig) (id : ℕ) (call : Call) (r : SessionRow) : SessionRow :=
  if r.id = id then { r with toSession := r.toSession.after cfg call } else r

lemma Session.after_frame (cfg : AppConfig) (session : Session) (call : Call) :
    (session.after cfg call).id = session.id ∧
      (session.after cfg call).externalAccount = session.externalAccount := by
  unfold Session.after
  split <;> exact ⟨rfl, rfl⟩

@[simp] lemma SessionRow.after_id (cfg : AppConfig) (id : ℕ) (call : Call) (r : SessionRow) :
    (r.after cfg id call).id = r.id := by
  unfold SessionRow.after
  split_ifs
  · exact (Session.after_frame cfg r.toSession call).1
  · rfl

@[simp] lemma SessionRow.after_externalAccount (cfg : AppConfig) (id : ℕ) (call : Call)
    (r : SessionRow) : (r.after cfg id call).externalAccount = r.externalAccount := by
  unfold SessionRow.after
  split_ifs
  · exact (Session.after_frame cfg r.toSession call).2
  · rfl

def Table.write (cfg : AppConfig) (t : Table) (id : ℕ) (call : Call) : Table where
  rows := t.rows.map (SessionRow.after cfg id call)
  nextId := t.nextId
  hasDefault := t.hasDefault
  fresh := by
    intro r hr
    obtain ⟨q, hq, rfl⟩ := List.mem_map.mp hr
    simpa using t.fresh q hq
  distinct := by
    rw [List.map_map]
    simpa [Function.comp_def] using t.distinct

def Table.removeSession (t : Table) (id : ℕ) : Table where
  rows := t.rows.filter fun r => r.id ≠ id
  nextId := t.nextId
  hasDefault := t.hasDefault
  fresh r hr := t.fresh r (List.mem_of_mem_filter hr)
  distinct := t.distinct.sublist (List.filter_sublist.map _)

/-- A call that throws writes nothing. -/
def Table.after (cfg : AppConfig) (t : Table) : Op → Table
  | .findOrCreateForAccount externalAccount now =>
    match t.findOrCreateForAccount cfg.quota externalAccount now with
    | some (_, t') => t'
    | none => t
  | .write id call => t.write cfg id call
  | .removeSession id => t.removeSession id

def Table.run (cfg : AppConfig) (t : Table) (ops : List Op) : Table :=
  ops.foldl (Table.after cfg) t

section Run
variable {cfg : AppConfig} {config : TrackedAction → ℚ} {t t' : Table} {s : SessionRow}
  {externalAccount : Text} {now : ℕ}

/-- What is returned is the row that was found, or a new one. -/
lemma findOrCreateForAccount_cases
    (h : t.findOrCreateForAccount config externalAccount now = some (s, t')) :
    (t.findLastForAccount externalAccount = some s ∧ t' = t) ∨
      (s, t') = t.create externalAccount now := by
  unfold Table.findOrCreateForAccount at h
  split at h
  · exact .inr (Option.some.inj h).symm
  · rename_i existingSession hfind
    obtain ⟨left, -, hleft⟩ := Option.map_eq_some_iff.mp h
    split_ifs at hleft
    · cases hleft
      exact .inl ⟨hfind, rfl⟩
    · exact .inr hleft.symm

/-- The rows with an id given out before keep their account. -/
def Table.Keeps (t t' : Table) : Prop :=
  t.nextId ≤ t'.nextId ∧ ∀ r ∈ t'.rows, r.id < t.nextId →
    ∃ q ∈ t.rows, q.id = r.id ∧ q.externalAccount = r.externalAccount

lemma Table.Keeps.refl (t : Table) : t.Keeps t := ⟨le_refl _, fun r hr _ => ⟨r, hr, rfl, rfl⟩⟩

lemma Table.Keeps.trans {t₁ t₂ t₃ : Table} (h : t₁.Keeps t₂) (g : t₂.Keeps t₃) : t₁.Keeps t₃ := by
  refine ⟨h.1.trans g.1, fun r hr hlt => ?_⟩
  obtain ⟨q, hq, hqid, hqaccount⟩ := g.2 r hr (hlt.trans_le h.1)
  obtain ⟨p, hp, hpid, hpaccount⟩ := h.2 q hq (hqid ▸ hlt)
  exact ⟨p, hp, hpid.trans hqid, hpaccount.trans hqaccount⟩

lemma create_keeps (t : Table) (externalAccount : Text) (now : ℕ) :
    t.Keeps (t.create externalAccount now).2 := by
  refine ⟨Nat.le_succ _, fun r hr hlt => ?_⟩
  rcases List.mem_append.mp hr with hr | hr
  · exact ⟨r, hr, rfl, rfl⟩
  · rw [List.mem_singleton.mp hr] at hlt
    exact absurd hlt (Nat.lt_irrefl _)

lemma after_keeps (cfg : AppConfig) (t : Table) (op : Op) : t.Keeps (t.after cfg op) := by
  cases op with
  | findOrCreateForAccount externalAccount now =>
    simp only [Table.after]
    split
    · rename_i s t' h
      rcases findOrCreateForAccount_cases h with ⟨-, rfl⟩ | hcreate
      · exact .refl _
      · have htable := congrArg Prod.snd hcreate
        simp only at htable
        exact htable ▸ create_keeps t externalAccount now
    · exact .refl t
  | write id call =>
    refine ⟨le_refl _, fun r hr _ => ?_⟩
    obtain ⟨q, hq, rfl⟩ := List.mem_map.mp hr
    exact ⟨q, hq, by simp, by simp⟩
  | removeSession id =>
    exact ⟨le_refl _, fun r hr _ => ⟨r, List.mem_of_mem_filter hr, rfl, rfl⟩⟩

lemma run_keeps (cfg : AppConfig) (t : Table) (ops : List Op) : t.Keeps (t.run cfg ops) := by
  induction ops generalizing t with
  | nil => exact .refl t
  | cons op ops ih => exact (after_keeps cfg t op).trans (ih (t.after cfg op))

end Run

section Spellings
variable {a b : Text}

lemma trimLeading0x_spelled (hb : Spelled b) :
    (Digits (trimLeading0x b) ∧ account b = toLowerCase (trimLeading0x b)) ∨
      ∃ digits, Digits digits ∧ trimLeading0x b = '0' :: 'X' :: digits := by
  cases hb with
  | plain h => exact .inl ⟨h.trimLeading0x_eq.symm ▸ h, by rw [h.trimLeading0x_eq, h.account_eq]⟩
  | leading0x h => exact .inl ⟨h, h.account_prefixed _ _⟩
  | leading0X h => exact .inr ⟨_, h, rfl⟩

/-- The key of the lookup is the stored one exactly when neither spelling has an upper-case
prefix and the second one's digits are in lower case. -/
lemma key_iff (ha : Spelled a) (hb : Spelled b) (hsame : account a = account b) :
    trimLeading0x b = normalizeAddress a ↔
      ¬ UpperPrefix a ∧ toLowerCase (trimLeading0x b) = trimLeading0x b := by
  rcases trimLeading0x_spelled hb with ⟨hdigits, hb⟩ | ⟨digits, hdigits, hb⟩
  · rcases normalizeAddress_spelled ha with ⟨ha, hzerox⟩ | ⟨ha, hzerox⟩
    · rw [ha, hsame, hb]
      simp [hzerox, eq_comm]
    · have hne : trimLeading0x b ≠ normalizeAddress a := by
        intro heq
        have hlength := congrArg List.length heq
        rw [hdigits.1, ha, hsame, hb] at hlength
        simp [hdigits.1] at hlength
      simp [hne, hzerox]
  · rw [hb]
    have hlower : toLowerCase ('0' :: 'X' :: digits) ≠ '0' :: 'X' :: digits := by
      simp [toLowerCase]
    have hne : '0' :: 'X' :: digits ≠ normalizeAddress a := by
      intro heq
      rcases normalizeAddress_spelled ha with ⟨ha, -⟩ | ⟨ha, -⟩
      · have hle := account_length_le a
        rw [← ha, ← heq, List.length_cons, List.length_cons, hdigits.1] at hle
        omega
      · rw [ha] at heq
        simp at heq
    simp [hne, hlower]

end Spellings

/-- The row is later than every other one of the account. -/
def Table.Latest (t : Table) (a : Text) (r : SessionRow) : Prop :=
  ∀ q ∈ t.rows, account q.externalAccount = account a → q.id ≠ r.id → q.createdAt < r.createdAt

section Lookup
variable {cfg : AppConfig} {config : TrackedAction → ℚ} {t : Table} {r s : SessionRow} {a b : Text}

/-- Two rows of a table with one id are one. -/
lemma Table.eq_of_id (t : Table) {q : SessionRow} (hq : q ∈ t.rows) (hr : r ∈ t.rows)
    (h : q.id = r.id) : q = r := List.inj_on_of_nodup_map t.distinct hq hr h

lemma findLastForAccount_mem (h : t.findLastForAccount b = some s) :
    s ∈ t.rows ∧ s.externalAccount = trimLeading0x b := by
  simpa using List.argmax_mem h

/-- The latest row of an account is found under its key. -/
lemma findLastForAccount_latest (hr : r ∈ t.rows) (hlatest : t.Latest a r)
    (haccount : account r.externalAccount = account a)
    (hkey : r.externalAccount = trimLeading0x b) : t.findLastForAccount b = some r := by
  have hmem : r ∈ t.rows.filter fun r => r.externalAccount = trimLeading0x b := by
    simp [hr, hkey]
  cases hfind : t.findLastForAccount b with
  | none =>
    rw [List.argmax_eq_none.mp hfind] at hmem
    exact absurd hmem List.not_mem_nil
  | some s =>
    obtain ⟨hs, hskey⟩ := findLastForAccount_mem hfind
    have hle : r.createdAt ≤ s.createdAt := List.le_of_mem_argmax hmem hfind
    by_cases hid : s.id = r.id
    · rw [t.eq_of_id hs hr hid]
    · have hlt := hlatest s hs (by rw [hskey, ← hkey, haccount]) hid
      omega

/-- A row is returned from an unchanged table exactly when it is the one found. -/
lemma findOrCreateForAccount_eq_iff {now : ℕ} (hr : r ∈ t.rows)
    (hquota : hasQuota config r.toSession = some true) :
    t.findOrCreateForAccount config b now = some (r, t) ↔ t.findLastForAccount b = some r := by
  constructor
  · intro h
    rcases findOrCreateForAccount_cases h with ⟨hfind, -⟩ | hcreate
    · exact hfind
    · have hid := congrArg (fun p : SessionRow × Table => p.1.id) hcreate
      have hlt := t.fresh r hr
      simp only [Table.create, Table.newSession] at hid
      omega
  · intro h
    simp [Table.findOrCreateForAccount, h, hquota]

end Lookup

/-- An open session is found again exactly when the spelling it was created for has no
upper-case prefix and the spelling it is looked up with has its digits in lower case. -/
theorem session_found_again_iff (cfg : AppConfig) (isAddress : Text → Bool)
    (hisAddress : ∀ t, isAddress t = true → Spelled t) (before created : Table) (a b : Text)
    (ha : isAddress a = true) (hb : isAddress b = true) (hsame : account a = account b)
    (now now' : ℕ) (s r : SessionRow)
    (hcreated : before.findOrCreateForAccount cfg.quota a now = some (s, created))
    (hnew : s ∉ before.rows) (ops : List Op) (hr : r ∈ (created.run cfg ops).rows)
    (hid : r.id = s.id) (hlatest : (created.run cfg ops).Latest a r)
    (hquota : hasQuota cfg.quota r.toSession = some true) :
    (created.run cfg ops).findOrCreateForAccount cfg.quota b now' =
        some (r, created.run cfg ops) ↔
      ¬ UpperPrefix a ∧ toLowerCase (trimLeading0x b) = trimLeading0x b := by
  have hcreate : (s, created) = before.create a now := by
    rcases findOrCreateForAccount_cases hcreated with ⟨hfind, -⟩ | hcreate
    · exact absurd (findLastForAccount_mem hfind).1 hnew
    · exact hcreate
  obtain ⟨rfl, rfl⟩ := Prod.mk.inj hcreate
  have hstored : r.externalAccount = normalizeAddress a := by
    have hgiven : r.id < (before.create a now).2.nextId := hid ▸ Nat.lt_succ_self _
    obtain ⟨q, hq, hqid, hqaccount⟩ := (run_keeps cfg (before.create a now).2 ops).2 r hr hgiven
    have hs : (before.create a now).1 ∈ (before.create a now).2.rows := by simp [Table.create]
    rw [← hqaccount, (before.create a now).2.eq_of_id hq hs (hqid.trans hid)]
    rfl
  have haccount : account r.externalAccount = account a := by
    rw [hstored, account_normalizeAddress (hisAddress a ha)]
  rw [findOrCreateForAccount_eq_iff hr hquota, ← key_iff (hisAddress a ha) (hisAddress b hb) hsame,
    ← hstored]
  constructor
  · intro hfind
    exact (findLastForAccount_mem hfind).2.symm
  · intro hkey
    exact findLastForAccount_latest hr hlatest haccount hkey.symm

section Samples

def noSessions (hasDefault : Bool) : Table := ⟨[], 0, hasDefault, by simp, by simp⟩

def emptyTable : Table := noSessions true

def lowerSpelling : Text := '0' :: 'x' :: List.replicate 40 'a'

def upperSpelling : Text := '0' :: 'x' :: List.replicate 40 'A'

/-- A session that has counted once. -/
def usedSession : SessionRow :=
  (emptyTable.newSession lowerSpelling 5).after sampleConfig 0
    (.incrementUsage .SubmitMetaTransaction 1)

def usedTable : Table :=
  (emptyTable.create lowerSpelling 5).2.run sampleConfig
    [.write 0 (.incrementUsage .SubmitMetaTransaction 1)]

theorem session_found_again_lower :
    usedTable.findOrCreateForAccount sampleConfig.quota (List.replicate 40 'a') 9 =
      some (usedSession, usedTable) := by
  have hlatest : usedTable.Latest lowerSpelling usedSession := by
    intro q hq _ hne
    have hrows : usedTable.rows = [usedSession] := rfl
    rw [hrows, List.mem_singleton] at hq
    exact absurd (congrArg (fun r : SessionRow => r.id) hq) hne
  exact (session_found_again_iff sampleConfig isAddressOneCase isAddressOneCase_spelled
    emptyTable (emptyTable.create lowerSpelling 5).2 lowerSpelling (List.replicate 40 'a')
    (by decide +kernel) (by decide +kernel) (by decide +kernel) 5 9
    (emptyTable.newSession lowerSpelling 5) usedSession rfl List.not_mem_nil
    [.write 0 (.incrementUsage .SubmitMetaTransaction 1)] (List.mem_singleton.mpr rfl) rfl hlatest
    (by decide +kernel)).mpr
      ⟨by decide +kernel, by decide +kernel⟩

/-- Logging in twice with the digits in upper case makes two sessions. -/
theorem session_not_found_again :
    isAddressOneCase upperSpelling = true ∧ ∃ s created,
      emptyTable.findOrCreateForAccount sampleConfig.quota upperSpelling 5 = some (s, created) ∧
      created.rows = [s] ∧ hasQuota sampleConfig.quota s.toSession = some true ∧
      ∃ s' later,
        created.findOrCreateForAccount sampleConfig.quota upperSpelling 9 = some (s', later) ∧
        s'.id ≠ s.id ∧ later.rows = [s, s'] := by
  refine ⟨by decide +kernel, emptyTable.newSession upperSpelling 5,
    (emptyTable.create upperSpelling 5).2, rfl, rfl, by decide +kernel, ?_⟩
  have hfind : (emptyTable.create upperSpelling 5).2.findLastForAccount upperSpelling = none := by
    rw [Table.findLastForAccount, List.argmax_eq_none]
    decide +kernel
  refine ⟨_, _, by rw [Table.findOrCreateForAccount, hfind], by decide, rfl⟩

end Samples

end Komenci.Sessions
