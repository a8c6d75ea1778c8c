import Komenci.HexText
import Komenci.RecordAssign

/-! The disbursement of the fund to the relayers, by the `FundingService`. All transfers are
sent at once, and what they resolve to is collected in a record keyed by the relayer. -/
namespace Komenci.Funding
open HexText RecordAssign

/-- A number of the `bignumber.js` library. -/
inductive BigNumber
  | NaN
  | infinity (negative : Bool)
  | finite (q : ℚ)
  deriving DecidableEq

/-- The product with a natural number. -/
def BigNumber.times : BigNumber → ℕ → BigNumber
  | .NaN, _ => .NaN
  | .infinity negative, n => if n = 0 then .NaN else .infinity negative
  | .finite q, n => .finite (q * n)

def BigNumber.isLessThan : BigNumber → BigNumber → Bool
  | .finite a, .finite b => a < b
  | .finite _, .infinity negative => !negative
  | .infinity negative, .finite _ => negative
  | .infinity true, .infinity false => true
  | _, _ => false

inductive Token
  | cUSD
  | celo
  deriving DecidableEq

structure RelayerAccounts where
  externalAccount : Text
  metaTransactionWallet : Text
  deriving DecidableEq

structure Transfer where
  token : Token
  to_ : Text
  amount : BigNumber
  deriving DecidableEq

/-- What `send` resolves to. It stands for the transfer, which is one of the two of the
relayer at `index`. -/
structure TransactionResult where
  index : ℕ
  token : Token
  deriving DecidableEq

/-- How the node answers. What rejects has the message of its error. -/
structure Node where
  getStableToken : Except String Unit
  getGoldToken : Except String Unit
  balanceOf : Token → Text → Except String BigNumber
  send : (index : ℕ) → (fund : Text) → Transfer → Except String Unit

structure RelayerDisbursement where
  celo : TransactionResult
  cUSD : TransactionResult
  deriving DecidableEq

/-- A record keyed by the addresses. -/
abbrev DisbursementSummary := Text → Option RelayerDisbursement

/-- The transfers that were sent, and how the call has ended. -/
structure Disbursement where
  sent : List TransactionResult
  outcome : Except String DisbursementSummary

/-- `Promise.all`. Which of several errors it rejects with depends on which comes first in
time; the first in the list stands for it. -/
def promiseAll {α : Type} : List (Except String α) → Except String (List α)
  | [] => .ok []
  | .error e :: _ => .error e
  | .ok a :: rest => (promiseAll rest).map (a :: ·)

/-- `new BigNumber(10).pow(18)` -/
def exp : ℕ := 10 ^ 18

section Service
variable (node : Node) (fund : Text)

/-- The kit keeps the wrappers of the two tokens, which are asked for again here. -/
def getFundBalance : Except String (BigNumber × BigNumber) := do
  node.getStableToken
  node.getGoldToken
  let celoBalance ← node.balanceOf .celo fund
  let cUSDBalance ← node.balanceOf .cUSD fund
  return (celoBalance, cUSDBalance)

def fundHasEnoughBalance (cUSDAmount celoAmount : BigNumber) (relayerCount : ℕ) :
    Except String Bool := do
  let balances ← getFundBalance node fund
  if balances.1.isLessThan (celoAmount.times relayerCount) then return false
  else if balances.2.isLessThan (cUSDAmount.times relayerCount) then return false
  else return true

def send (index : ℕ) (transfer : Transfer) : Except String TransactionResult :=
  (node.send index fund transfer).map fun _ => ⟨index, transfer.token⟩

section Relayers
variable (cUSDAmountSubunit celoAmountSubunit : BigNumber)

def cUSDTx (index : ℕ) (relayer : RelayerAccounts) : Except String TransactionResult :=
  send node fund index ⟨.cUSD, relayer.metaTransactionWallet, cUSDAmountSubunit⟩

def celoTx (index : ℕ) (relayer : RelayerAccounts) : Except String TransactionResult :=
  send node fund index ⟨.celo, relayer.externalAccount, celoAmountSubunit⟩

/-- Both transfers of a relayer. -/
def relayerTx (index : ℕ) (relayer : RelayerAccounts) :
    Except String (TransactionResult × TransactionResult) := do
  let cUSD ← cUSDTx node fund cUSDAmountSubunit index relayer
  let celo ← celoTx node fund celoAmountSubunit index relayer
  return (cUSD, celo)

/-- All sends. They are started before the first of them ends. -/
def sends (relayers : List RelayerAccounts) : List (Except String TransactionResult) :=
  (relayers.mapIdx fun index relayer => [cUSDTx node fund cUSDAmountSubunit index relayer,
    celoTx node fund celoAmountSubunit index relayer]).flatten

end Relayers

/-- The `reduce` over the relayers. -/
def summarise (relayers : List RelayerAccounts)
    (relayerTxs : List (TransactionResult × TransactionResult)) : DisbursementSummary :=
  assign ((relayers.zip relayerTxs).map fun p => (p.1.externalAccount, ⟨p.2.2, p.2.1⟩))

/-- What comes before the transfers: the wrappers of the tokens, and the balance of the fund. -/
def checkFund (relayers : List RelayerAccounts) (cUSDAmountSubunit celoAmountSubunit : BigNumber) :
    Except String Unit := do
  node.getStableToken
  node.getGoldToken
  if ← fundHasEnoughBalance node fund cUSDAmountSubunit celoAmountSubunit relayers.length then
    return ()
  else throw "Fund balance to low to top-up relayers"

def disburseFunds (relayers : List RelayerAccounts) (cUSDAmount celoAmount : BigNumber) :
    Disbursement :=
  let cUSDAmountSubunit := cUSDAmount.times exp
  let celoAmountSubunit := celoAmount.times exp
  match checkFund node fund relayers cUSDAmountSubunit celoAmountSubunit with
  | .error e => ⟨[], .error e⟩
  | .ok _ =>
    { sent := (sends node fund cUSDAmountSubunit celoAmountSubunit relayers).filterMap
        Except.toOption
      outcome := (promiseAll (relayers.mapIdx
        (relayerTx node fund cUSDAmountSubunit celoAmountSubunit))).map (summarise relayers) }

end Service

/-- The relayers of `--relayer`, one for each time it is given; all of them if it is not. -/
def relayersToFund (configured : List RelayerAccounts) (relayer : List Text) :
    List RelayerAccounts :=
  if relayer.length > 0 then
    relayer.filterMap fun r => configured.find? fun pr => pr.externalAccount = r
  else configured

/-- The summary has the transfer. -/
def Lists (summary : DisbursementSummary) (tx : TransactionResult) : Prop :=
  ∃ account d, summary account = some d ∧ (tx = d.cUSD ∨ tx = d.celo)

/-- The call throws without a transfer, or it returns a summary with all of them, two for each
element of the list. -/
def Accounted (relayers : List RelayerAccounts) (d : Disbursement) : Prop :=
  match d.outcome with
  | .error _ => d.sent = []
  | .ok summary => d.sent.length = 2 * relayers.length ∧ ∀ tx ∈ d.sent, Lists summary tx

section PromiseAll
variable {α : Type}

lemma promiseAll_eq_ok_iff {settled : List (Except String α)} {results : List α} :
    promiseAll settled = .ok results ↔ settled = results.map .ok := by
  induction settled generalizing results with
  | nil => cases results <;> simp [promiseAll]
  | cons r rest ih =>
    cases r with
    | error e => cases results <;> simp [promiseAll]
    | ok a =>
      cases hrest : promiseAll rest with
      | error e =>
        cases results with
        | nil => simp [promiseAll, hrest, Except.map]
        | cons b results => simp [promiseAll, hrest, Except.map, ← ih]
      | ok xs =>
        cases results with
        | nil => simp [promiseAll, hrest, Except.map]
        | cons b results => simp [promiseAll, hrest, Except.map, ← ih]

end PromiseAll

section Sends
variable {node : Node} {fund : Text} {cUSDAmountSubunit celoAmountSubunit : BigNumber}
  {relayers : List RelayerAccounts}

lemma send_cases (node : Node) (fund : Text) (index : ℕ) (transfer : Transfer) :
    (∃ e, send node fund index transfer = .error e) ∨
      send node fund index transfer = .ok ⟨index, transfer.token⟩ := by
  unfold send
  cases node.send index fund transfer with
  | error e => exact .inl ⟨e, rfl⟩
  | ok _ => exact .inr rfl

lemma send_of_isOk {index : ℕ} {transfer : Transfer}
    (h : (send node fund index transfer).isOk = true) :
    send node fund index transfer = .ok ⟨index, transfer.token⟩ := by
  obtain ⟨e, he⟩ | hok := send_cases node fund index transfer
  · rw [he] at h
    cases h
  · exact hok

/-- The results of a relayer whose transfers are both sent. -/
def resultsOf (index : ℕ) : TransactionResult × TransactionResult := (⟨index, .cUSD⟩, ⟨index, .celo⟩)

lemma relayerTx_ok_iff {index : ℕ} {relayer : RelayerAccounts}
    {x : TransactionResult × TransactionResult} :
    relayerTx node fund cUSDAmountSubunit celoAmountSubunit index relayer = .ok x ↔
      x = resultsOf index ∧ (cUSDTx node fund cUSDAmountSubunit index relayer).isOk = true ∧
        (celoTx node fund celoAmountSubunit index relayer).isOk = true := by
  have hcUSD := send_cases node fund index
    ⟨.cUSD, relayer.metaTransactionWallet, cUSDAmountSubunit⟩
  have hcelo := send_cases node fund index
    ⟨.celo, relayer.externalAccount, celoAmountSubunit⟩
  simp only [relayerTx, cUSDTx, celoTx]
  rcases hcUSD with ⟨e, hcUSD⟩ | hcUSD <;> rcases hcelo with ⟨e', hcelo⟩ | hcelo <;>
    simp [hcUSD, hcelo, bind, Except.bind, pure, Except.pure, Except.isOk, Except.toBool, resultsOf,
      eq_comm]

lemma forall_sends_iff {q : Except String TransactionResult → Prop} :
    (∀ r ∈ sends node fund cUSDAmountSubunit celoAmountSubunit relayers, q r) ↔
      ∀ i (hi : i < relayers.length), q (cUSDTx node fund cUSDAmountSubunit i relayers[i]) ∧
        q (celoTx node fund celoAmountSubunit i relayers[i]) := by
  simp only [sends, List.mem_flatten, List.mem_mapIdx]
  constructor
  · intro h i hi
    exact ⟨h _ ⟨_, ⟨i, hi, rfl⟩, by simp⟩, h _ ⟨_, ⟨i, hi, rfl⟩, by simp⟩⟩
  · rintro h r ⟨_, ⟨i, hi, rfl⟩, hr⟩
    simp only [List.mem_cons, List.not_mem_nil, or_false] at hr
    rcases hr with rfl | rfl
    · exact (h i hi).1
    · exact (h i hi).2

/-- All promises of the transfers are fulfilled exactly when all transfers are sent. -/
lemma promiseAll_relayerTx {results : List (TransactionResult × TransactionResult)} :
    promiseAll (relayers.mapIdx (relayerTx node fund cUSDAmountSubunit celoAmountSubunit)) =
        .ok results ↔
      results = relayers.mapIdx (fun index _ => resultsOf index) ∧
        ∀ r ∈ sends node fund cUSDAmountSubunit celoAmountSubunit relayers, r.isOk = true := by
  rw [promiseAll_eq_ok_iff, forall_sends_iff]
  constructor
  · intro h
    have hget : ∀ i : ℕ, (relayers[i]?).map
        (relayerTx node fund cUSDAmountSubunit celoAmountSubunit i) = (results[i]?).map .ok := by
      intro i
      simpa using congrArg (fun l => l[i]?) h
    constructor
    · refine List.ext_getElem? fun i => ?_
      have hi := hget i
      rw [List.getElem?_mapIdx]
      cases hr : relayers[i]? with
      | none => simpa [hr, eq_comm] using hi
      | some relayer =>
        rw [hr, Option.map_some, eq_comm, Option.map_eq_some_iff] at hi
        obtain ⟨x, hx, htx⟩ := hi
        rw [hx, (relayerTx_ok_iff.mp htx.symm).1]
        rfl
    · intro i hi
      have hi' := hget i
      rw [List.getElem?_eq_getElem hi, Option.map_some, eq_comm, Option.map_eq_some_iff] at hi'
      obtain ⟨x, -, htx⟩ := hi'
      exact (relayerTx_ok_iff.mp htx.symm).2
  · rintro ⟨rfl, h⟩
    refine List.ext_getElem (by simp) fun i hi _ => ?_
    simp only [List.getElem_map, List.getElem_mapIdx]
    rw [List.length_mapIdx] at hi
    exact relayerTx_ok_iff.mpr ⟨rfl, h i hi⟩

/-- No transfer was sent. -/
lemma sent_eq_nil_iff :
    (sends node fund cUSDAmountSubunit celoAmountSubunit relayers).filterMap Except.toOption = [] ↔
      ∀ r ∈ sends node fund cUSDAmountSubunit celoAmountSubunit relayers, r.isOk = false := by
  rw [List.filterMap_eq_nil_iff]
  refine forall₂_congr fun r _ => ?_
  cases r <;> simp [Except.toOption, Except.isOk, Except.toBool]

end Sends

section Summary
variable {node : Node} {fund : Text} {cUSDAmountSubunit celoAmountSubunit : BigNumber}
  {relayers : List RelayerAccounts}

def disbursementOf (index : ℕ) : RelayerDisbursement := ⟨⟨index, .celo⟩, ⟨index, .cUSD⟩⟩

/-- The assignments when all transfers are sent. -/
lemma summarise_eq : summarise relayers (relayers.mapIdx fun index _ => resultsOf index) =
    assign (relayers.mapIdx fun index relayer => (relayer.externalAccount, disbursementOf index)) := by
  unfold summarise
  congr 1
  refine List.ext_getElem (by simp) fun i hi hi' => ?_
  simp [resultsOf, disbursementOf]

lemma keys_eq : (relayers.mapIdx fun index relayer =>
    (relayer.externalAccount, disbursementOf index)).map Prod.fst =
      relayers.map RelayerAccounts.externalAccount :=
  List.ext_getElem (by simp) fun i hi hi' => by simp

lemma values_eq (relayers : List RelayerAccounts) : (relayers.mapIdx fun index relayer =>
    (relayer.externalAccount, disbursementOf index)).map Prod.snd =
      (List.range relayers.length).map disbursementOf :=
  List.ext_getElem (by simp) fun i hi hi' => by simp

lemma values_nodup (relayers : List RelayerAccounts) : ((List.range relayers.length).map disbursementOf).Nodup := by
  refine List.Nodup.map (fun i j h => ?_) List.nodup_range
  simpa [disbursementOf] using congrArg RelayerDisbursement.celo h

/-- The summary has a transfer of a relayer when it has kept what was assigned for it. -/
lemma lists_iff (i : ℕ) (token : Token) :
    Lists (summarise relayers (relayers.mapIdx fun index _ => resultsOf index)) ⟨i, token⟩ ↔
      ∃ account, summarise relayers (relayers.mapIdx fun index _ => resultsOf index) account =
        some (disbursementOf i) := by
  constructor
  · rintro ⟨account, d, hd, htx⟩
    have hmem : d ∈ (relayers.mapIdx fun index relayer =>
        (relayer.externalAccount, disbursementOf index)).map Prod.snd := by
      rw [summarise_eq] at hd
      exact List.mem_map_of_mem (f := Prod.snd) (mem_of_assign hd)
    rw [values_eq] at hmem
    obtain ⟨j, -, rfl⟩ := List.mem_map.mp hmem
    refine ⟨account, ?_⟩
    rcases htx with htx | htx <;> cases htx <;> exact hd
  · rintro ⟨account, hd⟩
    refine ⟨account, _, hd, ?_⟩
    cases token
    · exact .inl rfl
    · exact .inr rfl

/-- The summary has all transfers exactly when no relayer is in the list twice. -/
lemma lists_all_iff : (∀ i < relayers.length, ∀ token,
      Lists (summarise relayers (relayers.mapIdx fun index _ => resultsOf index)) ⟨i, token⟩) ↔
    (relayers.map RelayerAccounts.externalAccount).Nodup := by
  have hkeeps := assign_keeps_iff (values_eq relayers ▸ values_nodup relayers)
  rw [keys_eq] at hkeeps
  have htoken : Nonempty Token := ⟨.cUSD⟩
  simp only [lists_iff, forall_const]
  rw [← hkeeps, values_eq, summarise_eq]
  simp

/-- The transfers, when all of them are sent. -/
lemma sent_eq
    (h : ∀ r ∈ sends node fund cUSDAmountSubunit celoAmountSubunit relayers, r.isOk = true) :
    (sends node fund cUSDAmountSubunit celoAmountSubunit relayers).filterMap Except.toOption =
      (List.range relayers.length).flatMap fun i => [⟨i, .cUSD⟩, ⟨i, .celo⟩] := by
  have hsends : (relayers.mapIdx fun index relayer =>
      [cUSDTx node fund cUSDAmountSubunit index relayer,
        celoTx node fund celoAmountSubunit index relayer]) =
      (List.range relayers.length).map fun i =>
        [.ok ⟨i, .cUSD⟩, .ok ⟨i, .celo⟩] := by
    refine List.ext_getElem (by simp) fun i hi hi' => ?_
    rw [List.length_mapIdx] at hi
    obtain ⟨hcUSD, hcelo⟩ := forall_sends_iff.mp h i hi
    simp only [List.getElem_mapIdx, List.getElem_map, List.getElem_range]
    rw [cUSDTx, send_of_isOk hcUSD, celoTx, send_of_isOk hcelo]
  rw [sends, hsends, ← List.flatMap_def]
  induction List.range relayers.length with
  | nil => rfl
  | cons i is ih => simpa [Except.toOption] using ih

lemma sent_length : ((List.range relayers.length).flatMap fun i =>
    [(⟨i, .cUSD⟩ : TransactionResult), ⟨i, .celo⟩]).length = 2 * relayers.length := by
  simp [List.length_flatMap, Nat.mul_comm]

lemma mem_sent {tx : TransactionResult} : tx ∈ ((List.range relayers.length).flatMap fun i =>
    [(⟨i, .cUSD⟩ : TransactionResult), ⟨i, .celo⟩]) ↔ tx.index < relayers.length := by
  obtain ⟨i, token⟩ := tx
  cases token <;> simp

end Summary

/-- Nothing stops the call before the transfers. -/
def Cleared (node : Node) (fund : Text) (relayers : List RelayerAccounts)
    (cUSDAmount celoAmount : BigNumber) : Prop :=
  checkFund node fund relayers (cUSDAmount.times exp) (celoAmount.times exp) = .ok ()

section Outcome
variable {node : Node} {fund : Text} {relayers : List RelayerAccounts}
  {cUSDAmount celoAmount : BigNumber}

/-- With all transfers sent, all are in the summary when no relayer is in the list twice. -/
lemma accounted_of_all_sent (hcheck : Cleared node fund relayers cUSDAmount celoAmount)
    (hall : ∀ r ∈ sends node fund (cUSDAmount.times exp) (celoAmount.times exp) relayers,
      r.isOk = true) :
    Accounted relayers (disburseFunds node fund relayers cUSDAmount celoAmount) ↔
      (relayers.map RelayerAccounts.externalAccount).Nodup := by
  have hlists : (∀ tx ∈ (List.range relayers.length).flatMap fun i =>
        [(⟨i, .cUSD⟩ : TransactionResult), ⟨i, .celo⟩],
      Lists (summarise relayers (relayers.mapIdx fun index _ => resultsOf index)) tx) ↔
        (relayers.map RelayerAccounts.externalAccount).Nodup := by
    rw [← lists_all_iff]
    exact ⟨fun h i hi token => h ⟨i, token⟩ (mem_sent.mpr hi),
      fun h tx htx => h tx.index (mem_sent.mp htx) tx.token⟩
  rw [Cleared] at hcheck
  simp only [disburseFunds, hcheck]
  rw [promiseAll_relayerTx.mpr ⟨rfl, hall⟩, sent_eq hall]
  simp only [Except.map, Accounted, sent_length, true_and, hlists]

/-- With one failed the call throws. -/
lemma accounted_of_failed (hcheck : Cleared node fund relayers cUSDAmount celoAmount)
    (hall : ¬ ∀ r ∈ sends node fund (cUSDAmount.times exp) (celoAmount.times exp) relayers,
      r.isOk = true) :
    Accounted relayers (disburseFunds node fund relayers cUSDAmount celoAmount) ↔
      ∀ r ∈ sends node fund (cUSDAmount.times exp) (celoAmount.times exp) relayers,
        r.isOk = false := by
  rw [Cleared] at hcheck
  simp only [disburseFunds, hcheck]
  cases hpromise : promiseAll (relayers.mapIdx (relayerTx node fund (cUSDAmount.times exp)
    (celoAmount.times exp))) with
  | error e => simp only [Except.map, Accounted, sent_eq_nil_iff]
  | ok results => exact absurd (promiseAll_relayerTx.mp hpromise).2 hall

end Outcome

/-- A disbursement is accounted for exactly when the check of the fund stops it, all sends fail,
or all succeed and no relayer is in the list twice. -/
theorem disbursement_accounted_iff (node : Node) (fund : Text) (relayers : List RelayerAccounts)
    (cUSDAmount celoAmount : BigNumber) :
    Accounted relayers (disburseFunds node fund relayers cUSDAmount celoAmount) ↔
      ¬ Cleared node fund relayers cUSDAmount celoAmount ∨
      (∀ r ∈ sends node fund (cUSDAmount.times exp) (celoAmount.times exp) relayers,
        r.isOk = false) ∨
      ((∀ r ∈ sends node fund (cUSDAmount.times exp) (celoAmount.times exp) relayers,
        r.isOk = true) ∧ (relayers.map RelayerAccounts.externalAccount).Nodup) := by
  by_cases hcheck : Cleared node fund relayers cUSDAmount celoAmount
  · by_cases hall : ∀ r ∈ sends node fund (cUSDAmount.times exp) (celoAmount.times exp) relayers,
        r.isOk = true
    · rw [accounted_of_all_sent hcheck hall]
      simp only [hcheck, not_true_eq_false, false_or]
      refine ⟨fun h => .inr ⟨hall, h⟩, ?_⟩
      rintro (hnone | ⟨-, h⟩)
      · -- All sends fail and succeed only where there are none.
        cases relayers with
        | nil => exact List.nodup_nil
        | cons relayer rest =>
          have hok := (forall_sends_iff.mp hall 0 (by simp)).1
          rw [(forall_sends_iff.mp hnone 0 (by simp)).1] at hok
          cases hok
      · exact h
    · rw [accounted_of_failed hcheck hall]
      simp only [hcheck, not_true_eq_false, false_or, hall, false_and, or_false]
  · simp only [hcheck, not_false_eq_true, true_or, iff_true]
    unfold Cleared at hcheck
    unfold disburseFunds
    dsimp only
    cases hfund : checkFund node fund relayers (cUSDAmount.times exp) (celoAmount.times exp) with
    | error e => rfl
    | ok _ => exact absurd hfund hcheck

section Samples

def firstRelayer : RelayerAccounts :=
  ⟨"0xa7d74cb4fca9458757cfc8b90d9b38a126f68b47".toList,
    "0xcb361f5852eefdd5ddfc593924405c86c79840b2".toList⟩

def secondRelayer : RelayerAccounts :=
  ⟨"0x00454cac6dae53f8800f71395b9a174f07a784b1".toList,
    "0x56ccb8e62b2a751df7c0298281845df155ba8539".toList⟩

/-- The fund has enough; one transfer fails. -/
def nodeFailing (index : ℕ) (token : Token) : Node where
  getStableToken := .ok ()
  getGoldToken := .ok ()
  balanceOf _ _ := .ok (.finite (10 ^ 30))
  send i _ transfer := if i = index ∧ transfer.token = token then .error "nonce too low" else .ok ()

/-- Three of four transfers are sent before the call throws; and with one relayer given twice
the summary has two of four. -/
theorem disbursement_unaccounted :
    ¬ Accounted [firstRelayer, secondRelayer] (disburseFunds (nodeFailing 1 .celo) []
      [firstRelayer, secondRelayer] (.finite 2) (.finite 1)) ∧
    relayersToFund [firstRelayer, secondRelayer]
      [firstRelayer.externalAccount, firstRelayer.externalAccount] =
        [firstRelayer, firstRelayer] ∧
    ¬ Accounted [firstRelayer, firstRelayer] (disburseFunds (nodeFailing 2 .celo) []
      [firstRelayer, firstRelayer] (.finite 2) (.finite 1)) := by
  refine ⟨?_, by decide +kernel, ?_⟩
  · have hcheck : Cleared (nodeFailing 1 .celo) [] [firstRelayer, secondRelayer] (.finite 2)
        (.finite 1) := by
      unfold Cleared
      decide +kernel
    rw [accounted_of_failed hcheck (by decide +kernel)]
    decide +kernel
  · have hcheck : Cleared (nodeFailing 2 .celo) [] [firstRelayer, firstRelayer] (.finite 2)
        (.finite 1) := by
      unfold Cleared
      decide +kernel
    rw [accounted_of_all_sent hcheck (by decide +kernel)]
    decide

end Samples

end Komenci.Funding
