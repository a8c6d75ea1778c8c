import Komenci.WalletEvasion

/-! When the parser throws. A batch whose arrays do not match in length is decoded, and is read
past the end of one of them. -/
namespace Komenci.Wallet
open HexText DecimalText

/-- What the decoder returns has the types of the ABI. -/
structure AbiTyped (decodeData : InputDataDecoder) : Prop where
  executeMetaTransaction : ∀ text decoded, decodeData text = .ok decoded →
    decoded.method = some "executeMetaTransaction" →
    ∃ destination value data v r s,
      decoded.inputs = [.address destination, .bn value, .buffer data, v, r, s]
  executeTransactions : ∀ text decoded, decodeData text = .ok decoded →
    decoded.method = some "executeTransactions" →
    ∃ inputs : BatchInputs, decoded.inputs = [.addresses inputs.destinations, .bns inputs.values,
      .buffer inputs.data, .bns inputs.dataLengths]

/-- The children of a batch, where each length has a value. -/
def BatchInputs.children (inputs : BatchInputs) : List RawTransaction :=
  childrenFrom inputs [] (inputs.values.zip inputs.dataLengths)

/-- A length has no value, or it has no destination and no child before it is refused. -/
def Overrun (F : MethodFilter) (inputs : BatchInputs) : Prop :=
  inputs.values.length < inputs.dataLengths.length ∨
    (inputs.destinations.length < inputs.dataLengths.length ∧
      ∀ child ∈ inputs.children.take inputs.destinations.length,
        ∃ t, F.find child = .ok (some t))

/-- The transaction asks the wallet for a batch of its own, which decodes to these arrays. -/
def AsksFor (decodeData : InputDataDecoder) (tx : RawTransaction) (wallet : Text)
    (inputs : BatchInputs) : Prop :=
  isCallTo tx (contractAddress wallet) executeMetaTransactionId = .ok true ∧
    ∃ child, decodeExecuteMetaTransaction decodeData tx = .ok (.ok child) ∧
      isCallTo child (contractAddress wallet) executeTransactionsId = .ok true ∧
      decode decodeData child "executeTransactions" EXECUTE_TRANSACTIONS_INPUTS =
        .ok [.addresses inputs.destinations, .bns inputs.values, .buffer inputs.data,
          .bns inputs.dataLengths]

/-- The call has been left by an exception. -/
def Throws {α : Type} (outcome : Outcome α) : Prop := ∃ e, outcome = .error e

section Children
variable {inputs : BatchInputs} {F : MethodFilter}

lemma decodeChildren_of_short {offset : Offset} {idx : ℕ} {lengths : List BN}
    (hidx : idx ≤ inputs.values.length) (h : inputs.values.length < idx + lengths.length) :
    decodeChildren inputs offset idx lengths = .error .typeError := by
  induction lengths generalizing offset idx with
  | nil =>
    simp only [List.length_nil] at h
    omega
  | cons dataLength rest ih =>
    rw [decodeChildren]
    cases hchild : decodeChild inputs offset idx dataLength with
    | error e => cases e; rfl
    | ok child =>
      have hlt : idx < inputs.values.length := by
        by_contra hge
        simp [decodeChild, List.getElem?_eq_none (Nat.not_lt.mp hge)] at hchild
      have hrest := @ih child.2 (idx + 1) hlt
        (by simp only [List.length_cons] at h; omega)
      simp only [bind, Except.bind, hrest]

lemma decodeChildren_of_le (h : inputs.dataLengths.length ≤ inputs.values.length) :
    decodeChildren inputs (.number 0) 0 inputs.dataLengths = .ok inputs.children :=
  decodeChildren_eq inputs [] inputs.values inputs.dataLengths rfl h

/-- A child has a destination as long as there are any. -/
lemma childrenFrom_destination (inputs : BatchInputs) (done : List BN) (rest : List (BN × BN)) :
    (childrenFrom inputs done rest).map RawTransaction.destination =
      (List.range' done.length rest.length).map fun i => inputs.destinations[i]? := by
  induction rest generalizing done with
  | nil => rfl
  | cons p rest ih =>
    have hrest := ih (done ++ [p.2])
    rw [List.length_append, List.length_singleton] at hrest
    simp only [childrenFrom, List.map_cons, hrest, List.length_cons, List.range'_succ]
    rfl

lemma find_of_destination {child : RawTransaction} (h : child.destination ≠ none) :
    ∃ r, F.find child = .ok r := by
  obtain ⟨destination, hd⟩ := Option.ne_none_iff_exists'.mp h
  exact ⟨_, by simp only [MethodFilter.find, hd]; rfl⟩

/-- The first element of a list with `Q`, after elements with `P`, is its head or in its tail. -/
lemma exists_split_cons {α : Type*} {P Q : α → Prop} {c : α} {cs : List α} :
    (∃ pre child post, c :: cs = pre ++ child :: post ∧ (∀ x ∈ pre, P x) ∧ Q child) ↔
      Q c ∨ P c ∧ ∃ pre child post, cs = pre ++ child :: post ∧ (∀ x ∈ pre, P x) ∧ Q child := by
  constructor
  · rintro ⟨pre, child, post, heq, hpre, hchild⟩
    cases pre with
    | nil =>
      obtain ⟨rfl, -⟩ := List.cons.inj heq
      exact .inl hchild
    | cons x pre =>
      obtain ⟨rfl, rfl⟩ := List.cons.inj heq
      exact .inr ⟨hpre _ (by simp), pre, child, post, rfl, fun x hx => hpre x (by simp [hx]), hchild⟩
  · rintro (hc | ⟨hc, pre, child, post, rfl, hpre, hchild⟩)
    · exact ⟨[], c, cs, rfl, by simp, hc⟩
    · exact ⟨c :: pre, child, post, rfl, List.forall_mem_cons.mpr ⟨hc, hpre⟩, hchild⟩

/-- The loop throws at a child without a destination, unless an earlier one is refused. -/
lemma findAll_throws_iff (children : List RawTransaction) :
    Throws (findAll F children) ↔ ∃ pre child post, children = pre ++ child :: post ∧
      (∀ c ∈ pre, ∃ t, F.find c = .ok (some t)) ∧ child.destination = none := by
  induction children with
  | nil => simp [Throws, findAll]
  | cons c cs ih =>
    rw [exists_split_cons, ← ih, findAll]
    by_cases hd : c.destination = none
    · have hc : F.find c = .error .typeError := by simp [MethodFilter.find, hd]
      simp only [hc, hd, true_or, iff_true]
      exact ⟨.typeError, rfl⟩
    · obtain ⟨r, hr⟩ := find_of_destination (F := F) hd
      cases r with
      | none => simp [hr, hd, Throws]
      | some t =>
        cases hcs : findAll F cs <;> simp [hr, hd, Throws, Except.map]

lemma children_destination {i : ℕ} (hi : i < inputs.children.length) :
    inputs.children[i].destination = inputs.destinations[i]? := by
  have hmap := childrenFrom_destination inputs [] (inputs.values.zip inputs.dataLengths)
  have hlength : inputs.children.length = (inputs.values.zip inputs.dataLengths).length :=
    childrenFrom_length inputs [] _
  have hget := congrArg (fun l => l[i]?) hmap
  simp only [List.getElem?_map, List.length_nil,
    List.getElem?_range' (hlength ▸ hi), Option.map_some] at hget
  change inputs.children[i]?.map RawTransaction.destination = _ at hget
  rw [List.getElem?_eq_getElem hi, Option.map_some, Option.some.injEq] at hget
  simpa using hget

/-- Where there are too few destinations the first child without one follows as many as there
are destinations. -/
lemma findAll_children_throws_iff (h : inputs.dataLengths.length ≤ inputs.values.length) :
    Throws (findAll F inputs.children) ↔
      inputs.destinations.length < inputs.dataLengths.length ∧
        ∀ child ∈ inputs.children.take inputs.destinations.length,
          ∃ t, F.find child = .ok (some t) := by
  have hlength : inputs.children.length = inputs.dataLengths.length := by
    simp [BatchInputs.children, childrenFrom_length, h]
  rw [findAll_throws_iff]
  constructor
  · rintro ⟨pre, child, post, heq, hpre, hchild⟩
    have hlt : pre.length < inputs.children.length := by simp [heq]
    have hnone : inputs.destinations[pre.length]? = none := by
      rw [← children_destination hlt, ← hchild]
      simp [heq]
    have hle : inputs.destinations.length ≤ pre.length := List.getElem?_eq_none_iff.mp hnone
    refine ⟨by omega, fun c hc => hpre c ?_⟩
    rw [heq, List.take_append_of_le_length hle] at hc
    exact List.mem_of_mem_take hc
  · rintro ⟨hlt, hfound⟩
    have hlt' : inputs.destinations.length < inputs.children.length := by omega
    refine ⟨_, inputs.children[inputs.destinations.length],
      inputs.children.drop (inputs.destinations.length + 1), ?_, hfound, ?_⟩
    · rw [List.getElem_cons_drop, List.take_append_drop]
    · rw [children_destination hlt']
      exact List.getElem?_eq_none le_rfl

end Children

section Decoding
variable {decodeData : InputDataDecoder} {tx child : RawTransaction} {wallet : Text}
  {inputs : BatchInputs} {F : MethodFilter}

lemma decode_ok {method : String} {n : ℕ} {is : List DecodedInput}
    (h : decode decodeData tx method n = .ok is) : ∃ decoded,
      decodeData tx.data = .ok decoded ∧ decoded.method = some method ∧ decoded.inputs = is := by
  unfold decode at h
  cases hd : decodeData tx.data with
  | error e => simp [hd] at h
  | ok decoded =>
    simp only [hd] at h
    split_ifs at h with hnone hmethod hlength
    exact ⟨decoded, rfl, by simpa using hmethod, Except.ok.inj h⟩

/-- The outer call is read without an exception, and has a destination. -/
lemma decodeExecuteMetaTransaction_typed (hd : AbiTyped decodeData) (tx : RawTransaction) :
    (∃ e, decodeExecuteMetaTransaction decodeData tx = .ok (.error e)) ∨
      ∃ child, decodeExecuteMetaTransaction decodeData tx = .ok (.ok child) ∧
        child.destination ≠ none := by
  unfold decodeExecuteMetaTransaction
  cases hdec : decode decodeData tx "executeMetaTransaction" EXECUTE_META_TRANSACTION_INPUTS with
  | error e => exact .inl ⟨e, rfl⟩
  | ok is =>
    obtain ⟨decoded, hdata, hmethod, rfl⟩ := decode_ok hdec
    obtain ⟨destination, value, data, v, r, s, his⟩ :=
      hd.executeMetaTransaction _ _ hdata hmethod
    rw [his]
    exact .inr ⟨_, rfl, Option.some_ne_none _⟩

/-- A batch is refused, or decodes to the arrays of the ABI. -/
lemma decode_batch_typed (hd : AbiTyped decodeData) (tx : RawTransaction) :
    (∃ e, decode decodeData tx "executeTransactions" EXECUTE_TRANSACTIONS_INPUTS = .error e) ∨
      ∃ inputs : BatchInputs, decode decodeData tx "executeTransactions"
        EXECUTE_TRANSACTIONS_INPUTS = .ok [.addresses inputs.destinations, .bns inputs.values,
          .buffer inputs.data, .bns inputs.dataLengths] := by
  cases hdec : decode decodeData tx "executeTransactions" EXECUTE_TRANSACTIONS_INPUTS with
  | error e => exact .inl ⟨e, rfl⟩
  | ok is =>
    obtain ⟨decoded, hdata, hmethod, rfl⟩ := decode_ok hdec
    obtain ⟨inputs, his⟩ := hd.executeTransactions _ _ hdata hmethod
    exact .inr ⟨inputs, by rw [his]⟩

/-- The test of a call that has a destination. -/
lemma isCallTo_of_destination (h : tx.destination ≠ none) (wallet : Text) (method : Selector) :
    ∃ b, isCallTo tx wallet method = .ok b := by
  obtain ⟨destination, hd⟩ := Option.ne_none_iff_exists'.mp h
  exact ⟨_, by simp only [isCallTo, hd]; rfl⟩

lemma decodeExecuteTransactions_of_decode (h : decode decodeData tx "executeTransactions"
      EXECUTE_TRANSACTIONS_INPUTS = .ok [.addresses inputs.destinations, .bns inputs.values,
        .buffer inputs.data, .bns inputs.dataLengths]) :
    decodeExecuteTransactions decodeData tx =
      (decodeChildren inputs (.number 0) 0 inputs.dataLengths).map .ok := by
  simp only [decodeExecuteTransactions, h]

end Decoding

section Parse
variable {service : TxParserService} {tx child : RawTransaction} {wallet : Text}
  {inputs : BatchInputs} {methodFilter : Option MethodFilter}

/-- On a batch the parser throws when it reads past an end. -/
lemma parse_throws_of_asks (h : AsksFor service.decodeData tx wallet inputs) :
    Throws (parse service tx wallet methodFilter) ↔
      Overrun (methodFilter.getD service.defaultFilter) inputs := by
  obtain ⟨hroot, child, hchild, hbatch, hdecode⟩ := h
  have hchildren : getChildren service tx (contractAddress wallet) =
      (decodeChildren inputs (.number 0) 0 inputs.dataLengths).map .ok := by
    rw [getChildren, hchild]
    dsimp only
    rw [hbatch]
    exact decodeExecuteTransactions_of_decode hdecode
  rw [parse, hroot, hchildren]
  by_cases hvalues : inputs.values.length < inputs.dataLengths.length
  · rw [decodeChildren_of_short (Nat.zero_le _) (by omega)]
    simp only [Overrun, hvalues, true_or, iff_true]
    exact ⟨.typeError, rfl⟩
  · rw [decodeChildren_of_le (Nat.not_lt.mp hvalues)]
    simp only [Overrun, hvalues, false_or]
    exact findAll_children_throws_iff (Nat.not_lt.mp hvalues)

/-- It throws on nothing else. -/
lemma asks_of_parse_throws (hd : AbiTyped service.decodeData) (hdest : tx.destination ≠ none)
    (h : Throws (parse service tx wallet methodFilter)) :
    ∃ inputs, AsksFor service.decodeData tx wallet inputs := by
  obtain ⟨e, he⟩ := h
  obtain ⟨root, hroot⟩ := isCallTo_of_destination hdest (contractAddress wallet)
    executeMetaTransactionId
  rw [parse, hroot] at he
  cases root with
  | false => cases he
  | true =>
    simp only [getChildren] at he
    obtain ⟨e', hmeta⟩ | ⟨child, hmeta, hchild⟩ := decodeExecuteMetaTransaction_typed hd tx
    · simp [hmeta] at he
    · obtain ⟨batch, hbatch⟩ := isCallTo_of_destination hchild (contractAddress wallet)
        executeTransactionsId
      simp only [hmeta, hbatch] at he
      cases batch with
      | false =>
        obtain ⟨pre, c, post, heq, -, hc⟩ := (findAll_throws_iff [child]).mp ⟨e, he⟩
        have hmem : c ∈ [child] := by simp [heq]
        rw [List.mem_singleton.mp hmem] at hc
        exact absurd hc hchild
      | true =>
        obtain ⟨e', hdecode⟩ | ⟨inputs, hdecode⟩ := decode_batch_typed hd child
        · simp [decodeExecuteTransactions, hdecode] at he
        · exact ⟨inputs, hroot, child, hmeta, hbatch, hdecode⟩

end Parse

/-- The parser returns a result exactly when the transaction is no batch that it reads past an
end. -/
theorem parse_returns_iff (service : TxParserService) (hd : AbiTyped service.decodeData)
    (tx : RawTransaction) (hdest : tx.destination ≠ none) (wallet : Text)
    (methodFilter : Option MethodFilter) :
    (∃ result, parse service tx wallet methodFilter = .ok result) ↔
      ∀ inputs, AsksFor service.decodeData tx wallet inputs →
        ¬ Overrun (methodFilter.getD service.defaultFilter) inputs := by
  constructor
  · rintro ⟨result, hresult⟩ inputs hasks hoverrun
    obtain ⟨e, he⟩ := (parse_throws_of_asks hasks).mpr hoverrun
    rw [hresult] at he
    cases he
  · intro h
    cases hparse : parse service tx wallet methodFilter with
    | ok result => exact ⟨result, rfl⟩
    | error e =>
      obtain ⟨inputs, hasks⟩ := asks_of_parse_throws hd hdest ⟨e, hparse⟩
      exact absurd ((parse_throws_of_asks hasks).mp ⟨e, hparse⟩) (h inputs hasks)

lemma contractDecoder_abiTyped : AbiTyped contractDecoder where
  executeMetaTransaction text decoded h hmethod := by
    unfold contractDecoder at h
    split at h
    · cases h
    · split at h
      · cases h
        exact ⟨_, _, _, _, _, _, rfl⟩
      · split at h <;> cases h <;> simp at hmethod
  executeTransactions text decoded h hmethod := by
    unfold contractDecoder at h
    split at h
    · cases h
    · split at h
      · cases h
        simp at hmethod
      · split at h <;> cases h
        · exact ⟨⟨_, _, _, _⟩, rfl⟩
        · simp at hmethod

/-- The meta-transaction by which the wallet at `w` is asked for any batch. -/
def unevenBatch (w : Address) (b : BatchCall) : RawTransaction :=
  ⟨some (toHex w.val), decimal 0, toHex (encodeMetaCall ⟨w, 0, encodeBatchCall b⟩)⟩

theorem parse_returns_three_calls :
    (∃ result, parse ⟨contractDecoder, MethodFilter.empty⟩ (metaTransaction (address 1) smuggled)
        (toHex (address 1).val) (some smuggledFilter) = .ok result) ↔
      ∀ inputs, AsksFor contractDecoder (metaTransaction (address 1) smuggled)
          (toHex (address 1).val) inputs → ¬ Overrun smuggledFilter inputs :=
  parse_returns_iff ⟨contractDecoder, MethodFilter.empty⟩ contractDecoder_abiTyped
    (metaTransaction (address 1) smuggled) (Option.some_ne_none _) (toHex (address 1).val)
    (some smuggledFilter)

/-- A length without a value, and one without a destination. -/
theorem parse_throws :
    parse ⟨contractDecoder, MethodFilter.empty⟩
        (unevenBatch (address 1) ⟨[address 2], [], [1, 1, 1, 1], [4]⟩)
        (toHex (address 1).val) (some smuggledFilter) = .error .typeError ∧
      parse ⟨contractDecoder, MethodFilter.empty⟩
        (unevenBatch (address 1) ⟨[], [0], [1, 1, 1, 1], [4]⟩)
        (toHex (address 1).val) (some smuggledFilter) = .error .typeError := by
  constructor <;> decide +kernel

end Komenci.Wallet
