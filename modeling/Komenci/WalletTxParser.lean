import Komenci.WalletMethodFilter

/-! The check of meta-transactions before they are relayed,
`api/src/wallet/tx-parser.service.ts`. -/
namespace Komenci.Wallet
open HexText

def executeMetaTransactionId : Selector := ⟨[0xea, 0x36, 0xcb, 0xc5], rfl⟩

def executeTransactionsId : Selector := ⟨[0xc2, 0x3b, 0xfb, 0xf7], rfl⟩

/-- An entry of `contract.methodIds`. -/
def methodIdText (s : Selector) : Text := '0' :: 'x' :: toHex s.val

structure TxParserService where
  decodeData : InputDataDecoder
  defaultFilter : MethodFilter

/-- `contract.address` of the wallet's wrapper: web3 keeps the digits of the address it is given,
behind `0x` and in the case of the checksum, which `isCallTo` removes. -/
def contractAddress (metaTxWalletAddress : Text) : Text := '0' :: 'x' :: account metaTxWalletAddress

def isCallTo (tx : RawTransaction) (contractAddress : Text) (method : Selector) :
    Except TypeError Bool :=
  match tx.destination with
  | none => .error .typeError
  | some destination =>
    .ok (decide (normalizeAddress destination = normalizeAddress contractAddress) &&
      decide (extractMethodId tx.data = normalizeMethodId (methodIdText method)))

/-- `wallet` is the address of the wrapper. -/
def getChildren (service : TxParserService) (tx : RawTransaction) (wallet : Text) :
    Outcome (List RawTransaction) :=
  match decodeExecuteMetaTransaction service.decodeData tx with
  | .error e => .error e
  | .ok (.error e) => .ok (.error e)
  | .ok (.ok child) =>
    match isCallTo child wallet executeTransactionsId with
    | .error e => .error e
    | .ok true => decodeExecuteTransactions service.decodeData child
    | .ok false => .ok (.ok [child])

/-- The loop over the children, left at the first one the filter does not know. -/
def findAll (methodFilter : MethodFilter) :
    List RawTransaction → Outcome (List TransactionWithMetadata)
  | [] => .ok (.ok [])
  | child :: rest =>
    match methodFilter.find child with
    | .error e => .error e
    | .ok none => .ok (.error (.TransactionNotAllowed child))
    | .ok (some method) => (findAll methodFilter rest).map fun r => r.map (method :: ·)

def parse (service : TxParserService) (tx : RawTransaction) (metaTxWalletAddress : Text)
    (methodFilter : Option MethodFilter) : Outcome (List TransactionWithMetadata) :=
  let wallet := contractAddress metaTxWalletAddress
  match isCallTo tx wallet executeMetaTransactionId with
  | .error e => .error e
  | .ok false => .ok (.error (.InvalidRootTransaction tx))
  | .ok true =>
    match getChildren service tx wallet with
    | .error e => .error e
    | .ok (.error e) => .ok (.error e)
    | .ok (.ok children) => findAll (methodFilter.getD service.defaultFilter) children

lemma normalizeMethodId_methodIdText (s : Selector) :
    normalizeMethodId (methodIdText s) = toHex s.val := by
  rw [normalizeMethodId, methodIdText, trimLeading0x, toLowerCase_toHex]

lemma normalizeAddress_contractAddress (t : Text) :
    normalizeAddress (contractAddress t) = account t := normalizeAddress_account t

/-- On decoded texts the test compares the bytes of address and selector. -/
lemma isCallTo_toHex {destination wallet : Text} {a w : Address} (value : Text) (data : Bytes)
    (method : Selector) (ha : normalizeAddress destination = toHex a.val)
    (hw : normalizeAddress wallet = toHex w.val) :
    isCallTo ⟨some destination, value, toHex data⟩ wallet method =
      .ok (decide (a = w ∧ data.take 4 = method.val)) := by
  simp only [isCallTo, ha, hw, extractMethodId_toHex, normalizeMethodId_methodIdText,
    toHex_injective.eq_iff, Subtype.ext_iff, Bool.decide_and]

lemma findAll_ok {F : MethodFilter} {children : List RawTransaction}
    {methods : List TransactionWithMetadata} (h : findAll F children = .ok (.ok methods)) :
    ∀ child ∈ children, ∃ t, F.find child = .ok (some t) := by
  induction children generalizing methods with
  | nil => simp
  | cons c cs ih =>
    rw [findAll] at h
    cases hc : F.find c with
    | error e => simp [hc] at h
    | ok r =>
      cases r with
      | none => simp [hc] at h
      | some t =>
        cases hr : findAll F cs with
        | error e => simp [hc, hr, Except.map] at h
        | ok r =>
          cases r with
          | error e => simp [hc, hr, Except.map] at h
          | ok ms =>
            intro child hm
            rcases List.mem_cons.mp hm with rfl | hm
            · exact ⟨t, hc⟩
            · exact ih hr child hm

lemma findAll_of_find {F : MethodFilter} {children : List RawTransaction}
    (h : ∀ child ∈ children, ∃ t, F.find child = .ok (some t)) :
    ∃ methods, findAll F children = .ok (.ok methods) := by
  induction children with
  | nil => exact ⟨[], rfl⟩
  | cons c cs ih =>
    obtain ⟨t, ht⟩ := h c (by simp)
    obtain ⟨ms, hms⟩ := ih fun child hm => h child (by simp [hm])
    exact ⟨t :: ms, by simp [findAll, ht, hms, Except.map]⟩

/-- What an accepted transaction has passed. -/
lemma parse_ok {service : TxParserService} {tx : RawTransaction} {wallet : Text}
    {F : MethodFilter} {methods : List TransactionWithMetadata}
    (h : parse service tx wallet (some F) = .ok (.ok methods)) :
    isCallTo tx (contractAddress wallet) executeMetaTransactionId = .ok true ∧
      ∃ children, getChildren service tx (contractAddress wallet) = .ok (.ok children) ∧
        ∀ child ∈ children, ∃ t, F.find child = .ok (some t) := by
  rw [parse] at h
  split at h
  · cases h
  · cases h
  · rename_i hroot
    split at h
    · cases h
    · cases h
    · rename_i children hchildren
      exact ⟨hroot, children, hchildren, findAll_ok h⟩

lemma parse_of_children {service : TxParserService} {tx : RawTransaction} {wallet : Text}
    {F : MethodFilter} {children : List RawTransaction}
    (hroot : isCallTo tx (contractAddress wallet) executeMetaTransactionId = .ok true)
    (hchildren : getChildren service tx (contractAddress wallet) = .ok (.ok children))
    (hfind : ∀ child ∈ children, ∃ t, F.find child = .ok (some t)) :
    ∃ methods, parse service tx wallet (some F) = .ok (.ok methods) := by
  obtain ⟨methods, hm⟩ := findAll_of_find hfind
  exact ⟨methods, by simp [parse, hroot, hchildren, hm]⟩

end Komenci.Wallet
