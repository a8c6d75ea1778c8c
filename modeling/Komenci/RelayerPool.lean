import Komenci.JsonCodec
import Komenci.RelayerWatchSet

/-! The pool of the node as the relayer reads it at its start: the transactions of all accounts
come in one answer, which is taken as a whole or not at all, if it comes. -/
namespace Komenci.Relayer
open JsonCodec Interleaving

def PoolTransaction : Codec := .type [
  ("hash", .string),
  ("blockHash", .union [.string, .null]),
  ("blockNumber", .union [.string, .null]),
  ("transactionIndex", .union [.string, .null]),
  ("from", .string),
  ("to", .union [.string, .null]),
  ("value", .string),
  ("feeCurrency", .union [.string, .null]),
  ("gatewayFee", .string),
  ("gasPrice", .string),
  ("gas", .string),
  ("input", .string),
  ("v", .string),
  ("r", .string),
  ("s", .string)]

def TxPoolRaw : Codec := .type [
  ("pending", .record (.record PoolTransaction)),
  ("queued", .record (.record PoolTransaction))]

inductive BlockchainServiceError
  | NodeRPCError (error : String)
  | DecodeError
  deriving DecidableEq

/-- The transactions by account and nonce. -/
structure TxPool (T : Type) where
  pending : List (String × List (String × T))
  queued : List (String × List (String × T))

def entries : Value → List (String × Value)
  | .object keys get => keys.map fun key => (key, get key)
  | _ => []

/-- The object whose values are formatted. -/
def formatEntries {T : Type} (format : Value → Option T) (v : Value) : Option (List (String × T)) :=
  (entries v).mapM fun e => (format e.2).map fun t => (e.1, t)

section Service
variable {T : Type} (outputTransactionFormatter : Value → Option T)

def formatTransactions (rawTxMap : Value) : Option (List (String × List (String × T))) :=
  formatEntries (formatEntries outputTransactionFormatter) rawTxMap

/-- `none` is an exception in the callback, of an answer without a body or of the formatter, so
that the promise never settles. -/
def getPendingTxPool (answer : Except String Value) :
    Option (Except BlockchainServiceError (TxPool T)) :=
  match answer with
  | .error error => some (.error (.NodeRPCError error))
  | .ok resp => do
    let result ← resp.read "result"
    match TxPoolRaw.decode result with
    | none => some (.error .DecodeError)
    | some raw =>
      let pending ← formatTransactions outputTransactionFormatter (raw.property "pending")
      let queued ← formatTransactions outputTransactionFormatter (raw.property "queued")
      some (.ok ⟨pending, queued⟩)

/-- A pool that cannot be had counts as one without transactions of the relayer. -/
def getPendingTransactions (checksumWalletAddress : String) (answer : Except String Value) :
    Option (List T) :=
  (getPendingTxPool outputTransactionFormatter answer).map fun txPoolRes =>
    match txPoolRes with
    | .error _ => []
    | .ok txPool => ((txPool.pending.lookup checksumWalletAddress).getD []).map Prod.snd

end Service

section Formatting
variable {T : Type} {format : Value → Option T} {v : Value}

lemma mapM_eq_some_iff {α β : Type} {f : α → Option β} {l : List α} {l' : List β} :
    l.mapM f = some l' ↔ (∀ a ∈ l, ∃ b, f a = some b) ∧ l' = l.filterMap f := by
  induction l generalizing l' with
  | nil => simp [eq_comm]
  | cons a l ih =>
    rw [List.mapM_cons, List.forall_mem_cons]
    cases ha : f a with
    | none => simp
    | some b =>
      rw [List.filterMap_cons_some ha]
      simp only [Option.bind_eq_bind, Option.bind_some, Option.bind_eq_some_iff, ih, Option.pure_def,
        Option.some.injEq]
      constructor
      · rintro ⟨bs, ⟨hall, rfl⟩, rfl⟩
        exact ⟨⟨⟨b, rfl⟩, hall⟩, rfl⟩
      · rintro ⟨⟨-, hall⟩, rfl⟩
        exact ⟨_, ⟨hall, rfl⟩, rfl⟩

/-- An object is formatted when each of its values is. -/
lemma formatEntries_eq_some_iff {es : List (String × T)} : formatEntries format v = some es ↔
    (∀ e ∈ entries v, ∃ t, format e.2 = some t) ∧
      es = (entries v).filterMap fun e => (format e.2).map fun t => (e.1, t) := by
  rw [formatEntries, mapM_eq_some_iff]
  simp

lemma lookup_filterMap {T : Type} (keys : List String) (F : String → Option T) (key : String) :
    (keys.filterMap fun k => (F k).map fun t => (k, t)).lookup key =
      if key ∈ keys then F key else none := by
  induction keys with
  | nil => rfl
  | cons k keys ih =>
    cases hF : F k with
    | none =>
      rw [List.filterMap_cons_none (by rw [hF]; rfl), ih]
      by_cases hkey : key = k
      · simp [hkey, hF]
      · simp [hkey]
    | some t =>
      rw [List.filterMap_cons_some (b := (k, t)) (by rw [hF]; rfl), List.lookup_cons, ih]
      by_cases hkey : key = k
      · simp [hkey, hF]
      · have hne : (key == k) = false := beq_eq_false_iff_ne.mpr hkey
        simp [hkey, hne]

/-- What stands under a key comes from what stood there. -/
lemma lookup_formatted (key : String) :
    ((entries v).filterMap fun e => (format e.2).map fun t => (e.1, t)).lookup key =
      if key ∈ (entries v).map Prod.fst then format (v.property key) else none := by
  cases v with
  | object keys get =>
    have hkeys : (entries (.object keys get)).map Prod.fst = keys := by
      simp [entries, Function.comp_def]
    rw [hkeys, entries, List.filterMap_map]
    refine (lookup_filterMap keys (fun k => format (get k)) key).trans ?_
    split_ifs with hkey
    · rw [Value.property, if_pos hkey]
    · rfl
  | _ => rfl

lemma property_of_mem {key : String} (h : key ∈ (entries v).map Prod.fst) :
    (key, v.property key) ∈ entries v := by
  cases v with
  | object keys get =>
    have hkey : key ∈ keys := by simpa [entries] using h
    rw [Value.property, if_pos hkey]
    exact List.mem_map_of_mem hkey
  | _ => cases h

lemma entries_of_not_mem {key : String} (h : key ∉ (entries v).map Prod.fst) :
    entries (v.property key) = [] := by
  cases v with
  | object keys get =>
    have hkey : key ∉ keys := by simpa [entries] using h
    rw [Value.property, if_neg hkey]
    rfl
  | _ => rfl

end Formatting

section Pool
variable {T : Type} {f : Value → Option T}

/-- None of the transactions makes the formatter throw. -/
def Formats (f : Value → Option T) (rawTxMap : Value) : Prop :=
  ∀ e ∈ entries rawTxMap, ∀ t ∈ entries e.2, ∃ tx, f t.2 = some tx

/-- The whole pool is well formed. -/
def Accepted (answer : Except String Value) (raw : Value) : Prop :=
  ∃ resp, answer = .ok resp ∧ resp.read "result" = some raw ∧ TxPoolRaw raw = true

/-- A pending transaction of the address in a pool that is well formed for all accounts. -/
def OwnPending (f : Value → Option T) (checksumWalletAddress : String)
    (answer : Except String Value) (t : T) : Prop :=
  ∃ raw, Accepted answer raw ∧
    ∃ e ∈ entries ((raw.property "pending").property checksumWalletAddress), f e.2 = some t

lemma formatTransactions_eq_some_iff {raw : Value} {es : List (String × List (String × T))} :
    formatTransactions f raw = some es ↔ Formats f raw ∧
      es = (entries raw).filterMap fun e => (formatEntries f e.2).map fun t => (e.1, t) := by
  simp only [formatTransactions, formatEntries_eq_some_iff, exists_and_left, exists_eq, and_true,
    Formats]

/-- What stands under the address, once the formatter has not thrown. -/
lemma mem_formatted {raw : Value} (h : Formats f raw) (address : String) (t : T) :
    t ∈ ((((entries raw).filterMap fun e => (formatEntries f e.2).map fun t => (e.1, t)).lookup
        address).getD []).map Prod.snd ↔
      ∃ e ∈ entries (raw.property address), f e.2 = some t := by
  rw [lookup_formatted]
  by_cases haddress : address ∈ (entries raw).map Prod.fst
  · have hformat := formatEntries_eq_some_iff.mpr ⟨h _ (property_of_mem haddress), rfl⟩
    rw [if_pos haddress, hformat]
    simp
  · simp [haddress, entries_of_not_mem haddress]

/-- The promise settles unless the answer has no body, or the formatter throws in a pool that is
well formed. What is taken for pending then are the transactions of the address, and none if the
pool is not well formed. -/
lemma getPendingTransactions_spec (address : String) (answer : Except String Value) :
    ((∃ txs, getPendingTransactions f address answer = some txs) ↔
      answer ≠ .ok .null ∧ answer ≠ .ok .undefined ∧ ∀ raw, Accepted answer raw →
        Formats f (raw.property "pending") ∧ Formats f (raw.property "queued")) ∧
    ∀ txs, getPendingTransactions f address answer = some txs →
      ∀ t, t ∈ txs ↔ OwnPending f address answer t := by
  cases answer with
  | error error =>
    simp [getPendingTransactions, getPendingTxPool, Accepted, OwnPending]
  | ok resp =>
    cases hread : resp.read "result" with
    | none =>
      have hget : getPendingTransactions f address (.ok resp) = none := by
        simp [getPendingTransactions, getPendingTxPool, hread]
      rcases Value.read_eq_none_iff.mp hread with rfl | rfl <;> simp [hget]
    | some raw =>
      have hnull : resp ≠ .null := by
        rintro rfl
        cases hread
      have hundefined : resp ≠ .undefined := by
        rintro rfl
        cases hread
      have haccepted : ∀ raw', Accepted (.ok resp) raw' ↔ raw' = raw ∧ TxPoolRaw raw = true := by
        intro raw'
        constructor
        · rintro ⟨_, hresp, hraw, hcodec⟩
          cases hresp
          obtain rfl := Option.some.inj (hread.symm.trans hraw)
          exact ⟨rfl, hcodec⟩
        · rintro ⟨rfl, hcodec⟩
          exact ⟨resp, rfl, hread, hcodec⟩
      by_cases hcodec : TxPoolRaw raw = true
      · have hget : getPendingTransactions f address (.ok resp) =
            (formatTransactions f (raw.property "pending")).bind fun pending =>
              (formatTransactions f (raw.property "queued")).map fun _ =>
                ((pending.lookup address).getD []).map Prod.snd := by
          have hdecode : TxPoolRaw.decode raw = some raw := if_pos hcodec
          simp only [getPendingTransactions, getPendingTxPool, hread, Option.bind_eq_bind,
            Option.bind_some, hdecode]
          cases formatTransactions f (raw.property "pending") with
          | none => rfl
          | some pending => cases formatTransactions f (raw.property "queued") <;> rfl
        constructor
        · constructor
          · rintro ⟨txs, h⟩
            refine ⟨by simpa using hnull, by simpa using hundefined, fun raw' hraw' => ?_⟩
            obtain ⟨pending, hpending, h⟩ := Option.bind_eq_some_iff.mp (hget ▸ h)
            obtain ⟨queued, hqueued, -⟩ := Option.map_eq_some_iff.mp h
            obtain ⟨rfl, -⟩ := (haccepted raw').mp hraw'
            exact ⟨(formatTransactions_eq_some_iff.mp hpending).1,
              (formatTransactions_eq_some_iff.mp hqueued).1⟩
          · rintro ⟨-, -, h⟩
            obtain ⟨hpending, hqueued⟩ := h raw ((haccepted raw).mpr ⟨rfl, hcodec⟩)
            rw [hget, formatTransactions_eq_some_iff.mpr ⟨hpending, rfl⟩,
              formatTransactions_eq_some_iff.mpr ⟨hqueued, rfl⟩]
            exact ⟨_, rfl⟩
        · intro txs h t
          obtain ⟨pending, hpending, h⟩ := Option.bind_eq_some_iff.mp (hget ▸ h)
          obtain ⟨queued, -, rfl⟩ := Option.map_eq_some_iff.mp h
          obtain ⟨hformats, rfl⟩ := formatTransactions_eq_some_iff.mp hpending
          rw [mem_formatted hformats]
          simp [OwnPending, haccepted, hcodec]
      · have hdecode : TxPoolRaw.decode raw = none := if_neg hcodec
        have hget : getPendingTransactions f address (.ok resp) = some [] := by
          simp only [getPendingTransactions, getPendingTxPool, hread, Option.bind_eq_bind,
            Option.bind_some, hdecode, Option.map_some]
        simp [hget, OwnPending, haccepted, hcodec, hnull, hundefined]

end Pool

section Start
variable {P ι : Type} [DecidableEq P] {cfg : AppConfig} {now : ℕ}

lemma mem_watched_foldl (pending : List (Tx P)) (s : Service P ι) (tx : Tx P) :
    tx ∈ (pending.foldl (fun s t => s.watchTransaction t
        ⟨t.nonce, t.gasPrice, now, cfg.transactionTimeoutMs⟩) s).watchedTransactions ↔
      tx ∈ s.watchedTransactions ∨ tx ∈ pending := by
  induction pending generalizing s with
  | nil => simp
  | cons t pending ih =>
    rw [List.foldl_cons, ih, List.mem_cons, Service.watchTransaction, List.mem_insert_iff]
    tauto

lemma transactions_foldl (pending : List (Tx P)) (s : Service P ι) (tx : Tx P) :
    (pending.foldl (fun s t => s.watchTransaction t
        ⟨t.nonce, t.gasPrice, now, cfg.transactionTimeoutMs⟩) s).transactions tx =
      if tx ∈ pending then some ⟨tx.nonce, tx.gasPrice, now, cfg.transactionTimeoutMs⟩
      else s.transactions tx := by
  induction pending generalizing s with
  | nil => rfl
  | cons t pending ih =>
    rw [List.foldl_cons, ih, Service.watchTransaction]
    by_cases hmem : tx ∈ pending
    · simp [hmem]
    · by_cases htx : tx = t
      · simp [htx]
      · simp [hmem, htx]

variable [DecidableEq ι] {policy : Policy P ι} {c : Config (Shared P ι) ι (ServiceTask P)} {i : ι}
  {k : ℕ}

/-- What the relayer reads of a formatted transaction. The codec asks for no nonce, so that it
may be `undefined`. -/
structure PendingTx (P : Type) where
  hash : Tx P
  nonce : Value
  gasPrice : ℚ

/-- The node tells the nonce and the price that have been signed. -/
def PendingTx.Signed (t : PendingTx P) : Prop :=
  t.nonce = .number t.hash.nonce ∧ t.gasPrice = t.hash.gasPrice

/-- The relayer gets its pending transactions unless the answer has no body, or the formatter
throws in a pool that is well formed. If the pool is well formed for all accounts, they are those
of its address, and with one malformed transaction of any account there are none. Where the node
tells of them what has been signed, the start goes through, and the relayer watches exactly those,
each under its nonce and price. -/
theorem startup_watches_pool (hc : Constructed cfg c)
    (hi : c.task i = .onModuleInit .updateGasPrice) (hk : policy.counts c.shared.node k = true)
    (f : Value → Option (PendingTx P)) (raw : Option ℚ) (checksumWalletAddress : String)
    (answer : Except String Value) :
    ((∃ txs, getPendingTransactions f checksumWalletAddress answer = some txs) ↔
      answer ≠ .ok .null ∧ answer ≠ .ok .undefined ∧ ∀ pool, Accepted answer pool →
        Formats f (pool.property "pending") ∧ Formats f (pool.property "queued")) ∧
    ∀ txs, getPendingTransactions f checksumWalletAddress answer = some txs →
      (∀ t, t ∈ txs ↔ OwnPending f checksumWalletAddress answer t) ∧
      ((∀ t, OwnPending f checksumWalletAddress answer t → t.Signed) →
        ∃ d, Run (serviceMachine cfg policy) anyStep c d ∧ d.task i = .onModuleInit .finished ∧
          d.shared.service =
            onModuleInit cfg raw k (txs.map PendingTx.hash) c.shared.clock ∧
          (∀ tx, tx ∈ d.shared.service.watchedTransactions ↔
            ∃ t, OwnPending f checksumWalletAddress answer t ∧ t.hash = tx) ∧
          ∀ tx cachedTx, d.shared.service.transactions tx = some cachedTx ↔
            ∃ t, OwnPending f checksumWalletAddress answer t ∧ t.hash = tx ∧
              t.nonce = .number cachedTx.nonce ∧ t.gasPrice = cachedTx.gasPrice ∧
              cachedTx.seenAt = c.shared.clock ∧ cachedTx.expireIn = cfg.transactionTimeoutMs) := by
  obtain ⟨hanswer, hown⟩ := getPendingTransactions_spec (f := f) checksumWalletAddress answer
  refine ⟨hanswer, fun txs htxs => ⟨hown txs htxs, fun hsigned => ?_⟩⟩
  obtain ⟨d, hrun, hfinished, hshared⟩ : ∃ d, Run (serviceMachine cfg policy) anyStep c d ∧
      d.task i = .onModuleInit .finished ∧ d.shared = { c.shared with
        service := onModuleInit cfg raw k (txs.map PendingTx.hash) c.shared.clock } :=
    run_onModuleInit hc hi hk
  have hservice : d.shared.service =
      onModuleInit cfg raw k (txs.map PendingTx.hash) c.shared.clock := by rw [hshared]
  have hmem : ∀ tx, tx ∈ txs.map PendingTx.hash ↔
      ∃ t, OwnPending f checksumWalletAddress answer t ∧ t.hash = tx := by
    simp [hown txs htxs]
  refine ⟨d, hrun, hfinished, hservice, fun tx => ?_, fun tx cachedTx => ?_⟩
  · rw [hservice, onModuleInit, mem_watched_foldl, updateGasPrice_watchedTransactions, ← hmem]
    simp
  · rw [hservice, onModuleInit, transactions_foldl, updateGasPrice_transactions]
    split_ifs with htx
    · obtain ⟨t, ht, rfl⟩ := (hmem tx).mp htx
      rw [Option.some.injEq]
      constructor
      · rintro rfl
        exact ⟨t, ht, rfl, (hsigned t ht).1, (hsigned t ht).2, rfl, rfl⟩
      · rintro ⟨u, hu, hhash, hnonce, hprice, hseen, hexpire⟩
        obtain ⟨hunonce, huprice⟩ := hsigned u hu
        have hsame : (t.hash.nonce : ℚ) = cachedTx.nonce :=
          Value.number.inj ((hhash ▸ hunonce).symm.trans hnonce)
        have hnat : t.hash.nonce = cachedTx.nonce := by exact_mod_cast hsame
        rw [hnat, ← hseen, ← hexpire, ← (hhash ▸ huprice : u.gasPrice = t.hash.gasPrice), hprice]
    · simp only [false_iff]
      rintro ⟨u, hu, hhash, -⟩
      exact htx ((hmem tx).mpr ⟨u, hu, hhash⟩)

end Start

section Samples

def samplePoolTransaction (gas : Value) : Value := .ofFields [
  ("hash", .string "0x1"), ("blockHash", .null), ("blockNumber", .null),
  ("transactionIndex", .null), ("from", .string "0xR"), ("to", .string "0xW"),
  ("value", .string "0x0"), ("feeCurrency", .null), ("gatewayFee", .string "0x0"),
  ("gasPrice", .string "0x3e8"), ("gas", gas), ("input", .string "0x"), ("nonce", .string "0x0"),
  ("v", .string "0x1b"), ("r", .string "0x1"), ("s", .string "0x1")]

/-- A pool with one transaction of the relayer and one of another account. -/
def samplePool (gas : Value) : Value := .ofFields [("result", .ofFields [
  ("pending", .ofFields [
    ("0xR", .ofFields [("0", samplePoolTransaction (.string "0x5208"))]),
    ("0xO", .ofFields [("7", samplePoolTransaction gas)])]),
  ("queued", .ofFields [])])]

def sampleFormatter (tx : Value) : Option (PendingTx ℕ) :=
  let nonce : Value :=
    if (tx.property "nonce").asString = some "0x0" then .number 0 else .undefined
  some ⟨⟨0, 1000, .payload 0⟩, nonce, 1000⟩

/-- The relayer loses sight of its own transaction when the gas of the other one is no text, and
never gets through its start when the answer has no body. -/
theorem startup_watches_pool_malformed :
    (∃ txs d, getPendingTransactions sampleFormatter "0xR" (.ok (samplePool (.string "0x5208"))) =
        some txs ∧ Run (serviceMachine sampleConfig Policy.standard) anyStep sampleService d ∧
      d.shared.service = onModuleInit sampleConfig none 0 (txs.map PendingTx.hash) 1 ∧
      ⟨0, 1000, .payload 0⟩ ∈ d.shared.service.watchedTransactions) ∧
    (∃ txs d, getPendingTransactions sampleFormatter "0xR" (.ok (samplePool .null)) = some txs ∧
      Run (serviceMachine sampleConfig Policy.standard) anyStep sampleService d ∧
      d.shared.service = onModuleInit sampleConfig none 0 (txs.map PendingTx.hash) 1 ∧
      ∀ tx, tx ∉ d.shared.service.watchedTransactions) ∧
    ∀ txs, getPendingTransactions sampleFormatter "0xR" (.ok .null) ≠ some txs := by
  have hi : sampleService.task 4 = .onModuleInit .updateGasPrice := rfl
  have hk : (Policy.standard : Policy ℕ ℕ).counts sampleService.shared.node 0 = true := by
    decide +kernel
  have hformats : ∀ raw, Formats sampleFormatter raw := fun _ _ _ _ _ => ⟨_, rfl⟩
  have hstart := startup_watches_pool sampleService_constructed hi hk sampleFormatter none "0xR"
  refine ⟨?_, ?_, fun txs htxs => ?_⟩
  · obtain ⟨hanswer, hall⟩ := hstart (.ok (samplePool (.string "0x5208")))
    obtain ⟨txs, htxs⟩ := hanswer.mpr ⟨by simp [samplePool, Value.ofFields],
      by simp [samplePool, Value.ofFields], fun _ _ => ⟨hformats _, hformats _⟩⟩
    have hown : ∀ t, OwnPending sampleFormatter "0xR" (.ok (samplePool (.string "0x5208"))) t ↔
        t = ⟨⟨0, 1000, .payload 0⟩, .number 0, 1000⟩ := by
      intro t
      constructor
      · rintro ⟨raw, ⟨resp, hresp, hraw, -⟩, e, he, ht⟩
        cases hresp
        obtain rfl := Option.some.inj hraw
        obtain rfl := List.mem_singleton.mp he
        exact (Option.some.inj ht).symm
      · rintro rfl
        refine ⟨_, ⟨_, rfl, rfl, by decide +kernel⟩, ?_⟩
        exact ⟨("0", samplePoolTransaction (.string "0x5208")), List.mem_singleton_self _, rfl⟩
    obtain ⟨d, hrun, -, hservice, hwatched, -⟩ := (hall txs htxs).2 fun t ht => by
      rw [(hown t).mp ht]
      exact ⟨congrArg Value.number Nat.cast_zero.symm, rfl⟩
    exact ⟨txs, d, htxs, hrun, hservice, (hwatched _).mpr ⟨_, (hown _).mpr rfl, rfl⟩⟩
  · obtain ⟨hanswer, hall⟩ := hstart (.ok (samplePool .null))
    obtain ⟨txs, htxs⟩ := hanswer.mpr ⟨by simp [samplePool, Value.ofFields],
      by simp [samplePool, Value.ofFields], fun _ _ => ⟨hformats _, hformats _⟩⟩
    have hnone : ∀ t, ¬ OwnPending sampleFormatter "0xR" (.ok (samplePool .null)) t := by
      rintro t ⟨raw, ⟨resp, hresp, hraw, hcodec⟩, -⟩
      cases hresp
      obtain rfl := Option.some.inj hraw
      exact absurd hcodec (by decide +kernel)
    obtain ⟨d, hrun, -, hservice, hwatched, -⟩ := (hall txs htxs).2 fun t ht => absurd ht (hnone t)
    refine ⟨txs, d, htxs, hrun, hservice, fun tx htx => ?_⟩
    obtain ⟨t, ht, -⟩ := (hwatched tx).mp htx
    exact hnone t ht
  · exact ((hstart (.ok .null)).1.mp ⟨txs, htxs⟩).1 rfl

end Samples

end Komenci.Relayer
