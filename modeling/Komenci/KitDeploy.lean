import Komenci.KitCalls

/-! Deploying a wallet from the kit: the request, the wait for the receipt of what the service
has sent, the event of the wallet, and the check of what has been deployed. -/
namespace Komenci.Kit
open JsonCodec Errors HexText Sessions Wallet Retry

/-- What a call of `getTransactionReceipt` gives. -/
inductive Poll
  | throws
  | null
  | receipt (status : Bool) (receipt : TxReceipt)

section Receipts

/-- The loop of `waitForReceipt`, with how often it has polled in the end. -/
def waitFrom (options : KomenciOptions) (hinterval : 0 < options.txPollingIntervalMs) (txHash : ℕ)
    (polls : ℕ → Poll) (polled waited : ℕ) : ℕ × Outcome TxReceipt TxError Unit :=
  if waited < options.txRetryTimeoutMs then
    match polls polled with
    | .throws => (polled + 1, .rejected ())
    | .null =>
      waitFrom options hinterval txHash polls (polled + 1) (waited + options.txPollingIntervalMs)
    | .receipt true receipt => (polled + 1, .ok receipt)
    | .receipt false _ => (polled + 1, .err (.Revert txHash))
  else (polled, .err .Timeout)
termination_by options.txRetryTimeoutMs - waited
decreasing_by omega

def waitForReceipt (options : KomenciOptions) (hinterval : 0 < options.txPollingIntervalMs)
    (txHash : ℕ) (polls : ℕ → Poll) : ℕ × Outcome TxReceipt TxError Unit :=
  waitFrom options hinterval txHash polls 0 0

variable {options : KomenciOptions} {hinterval : 0 < options.txPollingIntervalMs} {txHash : ℕ}
  {polls : ℕ → Poll}

/-- The loop ends with the first poll that finds something, or when the time is over. -/
lemma waitFrom_spec (polled : ℕ) :
    ∃ k, polled ≤ k ∧ (∀ j, polled ≤ j → j < k →
        j * options.txPollingIntervalMs < options.txRetryTimeoutMs ∧ polls j = .null) ∧
      (options.txRetryTimeoutMs ≤ k * options.txPollingIntervalMs ∧
          waitFrom options hinterval txHash polls polled (polled * options.txPollingIntervalMs) =
            (k, .err .Timeout) ∨
        k * options.txPollingIntervalMs < options.txRetryTimeoutMs ∧ polls k ≠ .null ∧
          waitFrom options hinterval txHash polls polled (polled * options.txPollingIntervalMs) =
            (k + 1, match polls k with
              | .receipt true receipt => .ok receipt
              | .receipt false _ => .err (.Revert txHash)
              | _ => .rejected ())) := by
  generalize hw : polled * options.txPollingIntervalMs = waited
  induction polled, waited using waitFrom.induct options hinterval polls with
  | case1 polled waited hlt hpoll =>
    refine ⟨polled, le_refl _, fun j hle hj => by omega, .inr ⟨hw ▸ hlt, by simp [hpoll], ?_⟩⟩
    rw [waitFrom, if_pos hlt, hpoll]
  | case2 polled waited hlt hpoll ih =>
    obtain ⟨k, hk, hnull, hend⟩ := ih (by rw [← hw, Nat.succ_mul])
    refine ⟨k, by omega, fun j hle hj => ?_, ?_⟩
    · rcases Nat.eq_or_lt_of_le hle with rfl | hlt'
      · exact ⟨hw ▸ hlt, hpoll⟩
      · exact hnull j hlt' hj
    · rw [waitFrom, if_pos hlt, hpoll]
      exact hend
  | case3 polled waited hlt receipt hpoll =>
    refine ⟨polled, le_refl _, fun j hle hj => by omega, .inr ⟨hw ▸ hlt, by simp [hpoll], ?_⟩⟩
    rw [waitFrom, if_pos hlt, hpoll]
  | case4 polled waited hlt receipt hpoll =>
    refine ⟨polled, le_refl _, fun j hle hj => by omega, .inr ⟨hw ▸ hlt, by simp [hpoll], ?_⟩⟩
    rw [waitFrom, if_pos hlt, hpoll]
  | case5 polled waited hover =>
    refine ⟨polled, le_refl _, fun j hle hj => by omega, .inl ⟨hw ▸ not_lt.mp hover, ?_⟩⟩
    rw [waitFrom, if_neg hover]

variable (options polls) in
/-- The receipt is there in time, and nothing was before it. -/
def Received (receipt : TxReceipt) : Prop :=
  ∃ k, k * options.txPollingIntervalMs < options.txRetryTimeoutMs ∧
    (∀ j < k, polls j = .null) ∧ polls k = .receipt true receipt

variable (options polls) in
/-- No receipt is there in time. -/
def NotReceived : Prop :=
  ∀ j, j * options.txPollingIntervalMs < options.txRetryTimeoutMs → polls j = .null

lemma received_of_ok {receipt : TxReceipt}
    (h : (waitForReceipt options hinterval txHash polls).2 = .ok receipt) :
    Received options polls receipt := by
  obtain ⟨k, -, hnull, hend⟩ := @waitFrom_spec options hinterval txHash polls 0
  rw [Nat.zero_mul] at hend
  rw [waitForReceipt] at h
  obtain ⟨-, hwait⟩ | ⟨hk, -, hwait⟩ := hend
  · simp [hwait] at h
  · refine ⟨k, hk, fun j hj => (hnull j (Nat.zero_le j) hj).2, ?_⟩
    rw [hwait] at h
    rcases hpoll : polls k with _ | _ | ⟨_ | _, found⟩ <;> simp_all

lemma notReceived_of_err {error : TxError}
    (h : (waitForReceipt options hinterval txHash polls).2 = .err error) :
    error = .Timeout ∧ NotReceived options polls ∨ error = .Revert txHash := by
  obtain ⟨k, -, hnull, hend⟩ := @waitFrom_spec options hinterval txHash polls 0
  rw [Nat.zero_mul] at hend
  rw [waitForReceipt] at h
  obtain ⟨hover, hwait⟩ | ⟨-, hfound, hwait⟩ := hend
  · rw [hwait] at h
    refine .inl ⟨(Outcome.err.inj h).symm, fun j hj => (hnull j (Nat.zero_le j) ?_).2⟩
    by_contra hle
    have := Nat.mul_le_mul_right options.txPollingIntervalMs (not_lt.mp hle)
    omega
  · rw [hwait] at h
    rcases hpoll : polls k with _ | _ | ⟨_ | _, found⟩ <;> simp_all

end Receipts

/-- What the node answers in one try. -/
structure DeployView where
  getTransactionReceipt : String → ℕ → Poll
  deploys : DeployChain
  chain : Chain

/-- What a call is made with: the options of the kit, the hash function, the number of a
transaction hash, the accounts, and the node in every try. -/
structure DeployCall where
  options : KomenciOptions
  interval_pos : 0 < options.txPollingIntervalMs
  soliditySha3 : Text → Option Text
  numberOf : String → ℕ
  implementationAddress : Text
  externalAccount : Text
  view : ℕ → DeployView

section Deploy
variable (call : DeployCall)

def DeployCall.verify (i : ℕ) (metaTxWalletAddress : Text) :
    Option (Except WalletValidationError Unit) :=
  verifyWallet call.soliditySha3 (call.view i).chain metaTxWalletAddress
    [call.implementationAddress] (normalizeAddressWith0x call.externalAccount)

/-- The end of `deployWallet`, when it has an address. -/
def DeployCall.check (i : ℕ) (metaTxWalletAddress : Text) : Outcome Text KitError Unit :=
  match call.verify i metaTxWalletAddress with
  | none => .rejected ()
  | some (.error error) => .err (.invalidWallet error)
  | some (.ok ()) => .ok metaTxWalletAddress

/-- What `deployWallet` does with a response. -/
def DeployCall.finish (i : ℕ) (v : Value) : Outcome Text KitError Unit :=
  if (v.property "status").asString = some "deployed" then
    match (v.property "walletAddress").asString with
    | some walletAddress => call.check i walletAddress.toList
    | none => .rejected ()
  else
    match (v.property "txHash").asString with
    | some txHash =>
      let waited := (waitForReceipt call.options call.interval_pos (call.numberOf txHash)
        ((call.view i).getTransactionReceipt txHash)).2
      match waited with
      | .rejected () => .rejected ()
      | .err error => .err (.tx error)
      | .ok receipt =>
        match getAddressFromDeploy (call.view i).deploys call.externalAccount
            (call.numberOf txHash) (.ok receipt) with
        | none => .rejected ()
        | some (.error error) => .err (.tx error)
        | some (.ok walletAddress) => call.check i walletAddress
    | none => .rejected ()

/-- The call of the client is the first thing a try awaits. -/
def deployWalletOf (url : Text) (replies : ℕ → Fetched) (fuel : ℕ) :
    Option (ℕ × Outcome Text KitError Unit) :=
  methodCall url DeployWalletResp replies (fun _ => none) deployWalletBails call.finish fuel

/-- Where the address comes from: the service has given it, or it is that of the owner's event
in the block of the service's transaction. -/
def DeployCall.From (i : ℕ) (wallet : Text) : Api.Answer → Prop
  | .deployed walletAddress => wallet = walletAddress.toList
  | .inProgress txHash _ => ∃ receipt events event,
    Received call.options ((call.view i).getTransactionReceipt txHash) receipt ∧
    (call.view i).deploys.getPastEvents receipt.to_ receipt.blockNumber = some events ∧
    events.find? (KitOwner call.externalAccount) = some event ∧ event.wallet = wallet
  | _ => False

/-- The transaction has no receipt in time, or its block no event of the owner. -/
def DeployCall.Lost (i : ℕ) (txHash : String) : Prop :=
  NotReceived call.options ((call.view i).getTransactionReceipt txHash) ∨
    ∃ receipt events, Received call.options ((call.view i).getTransactionReceipt txHash) receipt ∧
      (call.view i).deploys.getPastEvents receipt.to_ receipt.blockNumber = some events ∧
      ∀ event ∈ events,
        normalizeAddressWith0x event.owner ≠ normalizeAddressWith0x call.externalAccount

variable {call} {i : ℕ} {v : Value}

lemma literal_iff {text : String} : Codec.literal text v = true ↔ v = .string text := by
  cases v <;> simp [Codec.literal]

/-- A response that the codec accepts is one of the service's answers. -/
lemma readAnswer_of_codec (h : DeployWalletResp v = true) :
    ((v.property "status").asString = some "deployed" ∧ ∃ walletAddress,
        (v.property "walletAddress").asString = some walletAddress ∧
        Api.readAnswer v .DeployWallet = some (.deployed walletAddress)) ∨
      (v.property "status").asString ≠ some "deployed" ∧ ∃ txHash deployerAddress,
        (v.property "txHash").asString = some txHash ∧
        Api.readAnswer v .DeployWallet = some (.inProgress txHash deployerAddress) := by
  have hfields : (v.property "status" = .string "deployed" ∧
      ∃ walletAddress, v.property "walletAddress" = .string walletAddress) ∨
      v.property "status" = .string "in-progress" ∧ ∃ txHash deployerAddress,
        v.property "txHash" = .string txHash ∧
        v.property "deployerAddress" = .string deployerAddress := by
    cases v with
    | object keys get =>
      simpa [DeployWalletResp, Codec.union, DeployWalletDeployed, DeployWalletInProgress,
        Codec.type_object, literal_iff, Codec.string_iff] using h
    | _ => cases h
  obtain ⟨hstatus, walletAddress, hwallet⟩ | ⟨hstatus, txHash, deployerAddress, htx, hdeployer⟩ :=
    hfields
  · exact .inl (by simp [Api.readAnswer, hstatus, hwallet])
  · exact .inr (by simp [Api.readAnswer, hstatus, htx, hdeployer])

/-- What the kit has verified with one implementation the API accepts among its own. -/
lemma isValidWallet_of_verify {wallet expectedSigner : Text} {env : ApiEnvironment}
    (h : call.verify i wallet = some (.ok ())) (hsha3 : env.soliditySha3 = call.soliditySha3)
    (himpl : normalizeAddress call.implementationAddress ∈ env.implementations.map normalizeAddress)
    (hsigner : normalizeAddress expectedSigner =
      normalizeAddress (normalizeAddressWith0x call.externalAccount)) :
    isValidWallet env (call.view i).chain wallet expectedSigner = some (.ok ()) := by
  rw [DeployCall.verify, verifyWallet_ok_iff] at h
  obtain ⟨hcode, ⟨implementation, himplementation, hmem⟩, signer, hsig, heq⟩ := h
  have hname : normalizeAddress implementation = normalizeAddress call.implementationAddress := by
    simpa using hmem
  have hvalid : verifyWallet env.soliditySha3 (call.view i).chain wallet env.implementations
      expectedSigner = some (.ok ()) := by
    rw [verifyWallet_ok_iff, hsha3]
    exact ⟨hcode, ⟨implementation, himplementation, hname ▸ himpl⟩, signer, hsig,
      heq.trans hsigner.symm⟩
  rw [isValidWallet, hvalid]
  rfl

lemma check_ok {wallet walletAddress : Text} (h : call.check i walletAddress = .ok wallet) :
    wallet = walletAddress ∧ call.verify i wallet = some (.ok ()) := by
  unfold DeployCall.check at h
  rcases hverify : call.verify i walletAddress with _ | _ | _ <;> simp_all

/-- The check of an address is the last thing a call does. -/
lemma check_bails {walletAddress : Text} {error : KitError}
    (h : call.check i walletAddress = .err error) : error.errorType ∈ deployWalletBails := by
  unfold DeployCall.check at h
  rcases hverify : call.verify i walletAddress with _ | reason | _ <;> simp_all
  rw [← h]
  exact List.mem_of_getLast? rfl

/-- What a try returns. -/
lemma finish_ok {wallet : Text} (hcodec : DeployWalletResp v = true)
    (h : call.finish i v = .ok wallet) :
    call.verify i wallet = some (.ok ()) ∧
      ∃ answer, Api.readAnswer v .DeployWallet = some answer ∧ call.From i wallet answer := by
  unfold DeployCall.finish at h
  obtain ⟨hstatus, walletAddress, hwallet, hread⟩ |
    ⟨hstatus, txHash, deployerAddress, htx, hread⟩ := readAnswer_of_codec hcodec
  · simp only [hstatus, if_pos, hwallet] at h
    obtain ⟨rfl, hverify⟩ := check_ok h
    exact ⟨hverify, _, hread, rfl⟩
  · simp only [hstatus, if_false, htx] at h
    split at h
    · cases h
    · cases h
    · next receipt hwait =>
      split at h
      · cases h
      · cases h
      · next walletAddress haddress =>
        obtain ⟨rfl, hverify⟩ := check_ok h
        obtain ⟨r, hr, events, hevents, event, hfind, hwallet⟩ :=
          getAddressFromDeploy_ok_iff.mp haddress
        obtain rfl := Except.ok.inj hr
        exact ⟨hverify, _, hread, receipt, events, event, received_of_ok hwait, hevents, hfind,
          hwallet⟩

/-- And what makes it end in an error that another try may follow. -/
lemma finish_err {error : KitError} (hcodec : DeployWalletResp v = true)
    (h : call.finish i v = .err error) (hbails : error.errorType ∉ deployWalletBails) :
    ∃ txHash deployerAddress,
      Api.readAnswer v .DeployWallet = some (.inProgress txHash deployerAddress) ∧
      call.Lost i txHash := by
  unfold DeployCall.finish at h
  obtain ⟨hstatus, walletAddress, hwallet, hread⟩ |
    ⟨hstatus, txHash, deployerAddress, htx, hread⟩ := readAnswer_of_codec hcodec
  · simp only [hstatus, if_pos, hwallet] at h
    exact absurd (check_bails h) hbails
  · refine ⟨txHash, deployerAddress, hread, ?_⟩
    simp only [hstatus, if_false, htx] at h
    split at h
    · cases h
    · next reason hwait =>
      obtain rfl := Outcome.err.inj h
      obtain ⟨-, hnone⟩ | rfl := notReceived_of_err hwait
      · exact .inl hnone
      · exact absurd (List.mem_cons_of_mem _ (List.mem_cons_of_mem _ List.mem_cons_self)) hbails
    · next receipt hwait =>
      split at h
      · cases h
      · next reason haddress =>
        cases hevents : (call.view i).deploys.getPastEvents receipt.to_ receipt.blockNumber with
        | none => simp [getAddressFromDeploy, hevents] at haddress
        | some events =>
          refine .inr ⟨receipt, events, received_of_ok hwait, hevents, ?_⟩
          intro event hevent howner
          cases hfind : events.find? (KitOwner call.externalAccount) with
          | none =>
            have hother := List.find?_eq_none.mp hfind event hevent
            exact absurd hother (by simp [KitOwner, howner])
          | some found => simp [getAddressFromDeploy, hevents, hfind] at haddress
      · exact absurd (check_bails h) hbails

end Deploy

/-- A call of `deployWallet` makes at most nine requests. Another one follows an answer only when
the transaction of the answer is lost; the wallet it returns comes from the last answer and has
been verified, so that the API accepts it where the implementation is configured. -/
theorem deployed_wallet_verified (call : DeployCall) (url : Text) (replies : ℕ → Fetched) :
    ∃ n outcome, (∀ fuel, 3 ≤ fuel → deployWalletOf call url replies fuel = some (n, outcome)) ∧
      1 ≤ n ∧ n ≤ 9 ∧
      (∀ j v, j + 1 < n → exec url DeployWalletResp (replies j) = .ok v →
        ∃ i txHash deployerAddress,
          Api.readAnswer v .DeployWallet = some (.inProgress txHash deployerAddress) ∧
          call.Lost i txHash) ∧
      ∀ wallet, outcome = .ok wallet → ∃ i,
        (∃ v answer, exec url DeployWalletResp (replies (n - 1)) = .ok v ∧
          Api.readAnswer v .DeployWallet = some answer ∧ call.From i wallet answer) ∧
        call.verify i wallet = some (.ok ()) ∧
        ∀ env expectedSigner, env.soliditySha3 = call.soliditySha3 →
          normalizeAddress call.implementationAddress ∈ env.implementations.map normalizeAddress →
          normalizeAddress expectedSigner =
            normalizeAddress (normalizeAddressWith0x call.externalAccount) →
          isValidWallet env (call.view i).chain wallet expectedSigner = some (.ok ()) := by
  let direct : ℕ → Option Unit := fun _ => none
  obtain ⟨k, hk, hcall⟩ := @methodCall_spec Text Unit url DeployWalletResp replies direct
    deployWalletBails call.finish
  have hpos := hk.1.1
  have hthree := le_three hk
  have hle := @requestsOf_le Unit url DeployWalletResp replies direct k
  refine ⟨_, _, hcall, requestsOf_pos rfl hpos, by omega, fun j v hj hv => ?_,
    fun wallet hwallet => ?_⟩
  · obtain ⟨i, hi, -, hfirst, hlt⟩ :=
      exists_try (show j < requestsOf url DeployWalletResp replies direct k by omega)
    obtain ⟨m, -, -, hsucc, hm, hclient⟩ :=
      @requestsOf_succ _ url DeployWalletResp replies direct i rfl
    obtain ⟨hlast, hok⟩ := last_of_ok hfirst (hsucc ▸ hlt) hm hv
    rw [hok] at hclient
    have hnext : i + 1 ≠ k := by
      rintro rfl
      omega
    have htry : methodTry url DeployWalletResp replies direct call.finish (i + 1) =
        call.finish (i + 1) v := methodTry_ok rfl hclient
    have hcodec := codec_of_exec hv
    cases hfinish : call.finish (i + 1) v with
    | ok wallet =>
      have hle := hk.2 ⟨Nat.le_add_left _ _, .inl ⟨wallet, htry.trans hfinish⟩⟩
      omega
    | rejected reason =>
      have hle := hk.2 ⟨Nat.le_add_left _ _, .inr (.inl ⟨reason, htry.trans hfinish⟩)⟩
      omega
    | err error =>
      have hbails := not_bails_of_lt hk (by omega) (by omega) (htry.trans hfinish)
      exact ⟨i + 1, finish_err hcodec hfinish hbails⟩
  · obtain ⟨i, rfl⟩ := Nat.exists_eq_add_of_le' hpos
    obtain ⟨m, hone, -, hsucc, -, hclient⟩ :=
      @requestsOf_succ _ url DeployWalletResp replies direct i rfl
    rcases htry : execTry url DeployWalletResp replies
      (requestsOf url DeployWalletResp replies direct i) m with v | error | ⟨⟨⟩⟩
    · rw [htry] at hclient
      rw [methodTry_ok rfl hclient] at hwallet
      have hexec := exec_of_execTry hone htry
      obtain ⟨hverify, answer, hread, hfrom⟩ := finish_ok (codec_of_exec hexec) hwallet
      refine ⟨i + 1, ⟨v, answer, hsucc ▸ hexec, hread, hfrom⟩, hverify, ?_⟩
      intro env expectedSigner hsha3 himpl hsigner
      exact isValidWallet_of_verify hverify hsha3 himpl hsigner
    · rw [htry] at hclient
      rw [methodTry_err rfl hclient] at hwallet
      cases hwallet

end Komenci.Kit
