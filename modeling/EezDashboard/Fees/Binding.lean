import EezDashboard.Fees.Quote

/-!
# What a quote can change

Nothing but the fee, within the cap, and what the caller left open.  Whatever the quote is, an accepted
transaction is the caller's, and the wallet is asked to send nothing else.
-/

set_option autoImplicit false

namespace Fees

open Js

/-! ## The steps -/

theorem quantity_eq_ok {value : Option Json} {n : ℕ} (h : quantity value = .ok n) :
    ∃ s ds, value = some (.str s) ∧ hexDigits? s = some ds ∧ hexValue ds = n := by
  rw [quantity] at h
  split at h
  · rename_i s ds hbind
    split at h
    · obtain ⟨s', hs', hmap⟩ := Option.bind_eq_some_iff.1 hbind
      obtain ⟨ds', hds', heq⟩ := Option.map_eq_some_iff.1 hmap
      cases heq
      cases h
      exact ⟨s, ds, string?_eq_some.1 hs', hds', rfl⟩
    · cases h
  · cases h

/-- A quantity is a text that is not empty. -/
theorem truthy_of_quantity {value : Option Json} {n : ℕ} (h : quantity value = .ok n) : truthy value = true := by
  obtain ⟨s, ds, rfl, hds, -⟩ := quantity_eq_ok h
  refine decide_eq_true fun hempty ↦ ?_
  subst hempty
  cases hds

theorem quantity_toHex {n m : ℕ} (h : quantity (some (.str (toHex n))) = .ok m) : m = n := by
  obtain ⟨s, ds, hs, hds, rfl⟩ := quantity_eq_ok h
  cases hs
  rw [hexDigits?_toHex] at hds
  cases hds
  exact hexValue_hexDigits n

theorem validateTransaction_eq_ok {fields : Key → Option Json} {u : Unit}
    (h : validateTransaction fields = .ok u) :
    (∀ key, key.isQuantity = true → ∃ n, quantity (fields key) = .ok n) ∧
      ∃ gas, quantity (fields .gas) = .ok gas ∧ 21000 ≤ gas ∧ gas ≤ 16777216 := by
  simp only [validateTransaction, Except.bind_eq_ok, raiseIf_eq_ok] at h
  obtain ⟨-, -, type, htype, chainId, hchain, nonce, hnonce, gas, hgas, value, hvalue, -, -, -, -, -, -, -, -,
    hbounds⟩ := h
  refine ⟨fun key hkey ↦ ?_, gas, hgas, by omega, by omega⟩
  cases key with
  | type => exact ⟨type, htype⟩
  | chainId => exact ⟨chainId, hchain⟩
  | nonce => exact ⟨nonce, hnonce⟩
  | gas => exact ⟨gas, hgas⟩
  | value => exact ⟨value, hvalue⟩
  | sender => cases hkey
  | to_ => cases hkey
  | data => cases hkey

theorem normalField_eq_ok {fields : Key → Option Json} {key : Key} {s : String}
    (h : normalField fields key = .ok s) :
    if key.isQuantity then ∃ n, quantity (fields key) = .ok n ∧ s = toHex n
    else ∃ s', fields key = some (.str s') ∧ s = lowerCase s' := by
  rw [normalField] at h
  split at h
  · rename_i hkey
    rw [if_pos hkey]
    cases hn : quantity (fields key) with
    | error e =>
      rw [hn] at h
      cases h
    | ok n =>
      rw [hn] at h
      cases h
      exact ⟨n, rfl, rfl⟩
  · rename_i hkey
    rw [if_neg hkey]
    split at h
    · rename_i s' hs'
      cases h
      exact ⟨s', string?_eq_some.1 hs', rfl⟩
    · cases h

/-- A normalized transaction has the fields of the caller's, or the defaults. -/
theorem normalizeTransaction_eq_ok {transaction : Option Json} {tx : Tx}
    (h : normalizeTransaction transaction = .ok tx) (key : Key) :
    if key.isQuantity then ∃ n, quantity (supplied transaction key) = .ok n ∧ tx.get key = toHex n
    else ∃ s, supplied transaction key = some (.str s) ∧ tx.get key = lowerCase s := by
  simp only [normalizeTransaction, Except.bind_eq_ok, Except.pure_eq_ok] at h
  obtain ⟨-, -, -, -, type, htype, chainId, hchain, sender, hsender, to_, hto, nonce, hnonce, gas, hgas,
    value, hvalue, data, hdata, rfl⟩ := h
  cases key with
  | type => exact normalField_eq_ok htype
  | chainId => exact normalField_eq_ok hchain
  | sender => exact normalField_eq_ok hsender
  | to_ => exact normalField_eq_ok hto
  | nonce => exact normalField_eq_ok hnonce
  | gas => exact normalField_eq_ok hgas
  | value => exact normalField_eq_ok hvalue
  | data => exact normalField_eq_ok hdata

/-- A value that a check found unchanged. -/
theorem unchanged_eq_ok {value : Option Json} {n m : ℕ} (h : unchanged value n = .ok true)
    (hvalue : quantity value = .ok m) : m = n := by
  rw [unchanged, if_pos (truthy_of_quantity hvalue), hvalue] at h
  exact of_decide_eq_true (Except.ok.inj h)

theorem resolve_eq_ok {name : String} {value resolved : Option Json} {n : ℕ}
    (h : resolve name value resolved = .ok n) :
    quantity resolved = .ok n ∧ ∀ m, quantity value = .ok m → m = n := by
  simp only [resolve, Except.bind_eq_ok] at h
  obtain ⟨r, hr, h⟩ := h
  split at h
  · rename_i hnull
    rw [Except.pure_eq_ok] at h
    subst h
    refine ⟨hr, fun m hm ↦ ?_⟩
    rcases hnull with rfl | rfl
    · cases hm
    · cases hm
  · simp only [Except.bind_eq_ok, raiseIf_eq_ok, Except.pure_eq_ok, not_not] at h
    obtain ⟨m, hm, -, rfl, rfl⟩ := h
    refine ⟨hr, fun m' hm' ↦ ?_⟩
    rw [hm] at hm'
    exact (Except.ok.inj hm').symm

/-! ## Accepted transactions -/

/-- Everything a quoted transaction is bound to. -/
structure Bound (args : QuoteArgs) (now : Option Json) (quoted : Quoted) : Prop where
  sender : ∃ s, get args.transaction "from" = some (.str s) ∧ quoted.tx.sender = lowerCase s
  to_ : ∃ s, get args.transaction "to" = some (.str s) ∧ quoted.tx.to_ = lowerCase s
  value : ∃ n, quantity (supplied args.transaction .value) = .ok n ∧ quantity (quoted.tx.fields .value) = .ok n
  data : ∃ s, supplied args.transaction .data = some (.str s) ∧ quoted.tx.data = lowerCase s
  supplied : ∀ key ∈ [Key.gas, .nonce, .type, .chainId], ∀ v, get args.transaction key.name = some v →
    ∃ n, quantity (some v) = .ok n ∧ quantity (quoted.tx.fields key) = .ok n
  gas : ∃ gas, quantity (quoted.tx.fields .gas) = .ok gas ∧ 21000 ≤ gas ∧ gas ≤ 16777216
  nonce : ∃ n, quantity (quoted.tx.fields .nonce) = .ok n ∧ n < 2 ^ 64
  chainId : ∃ n, quantity (quoted.tx.fields .chainId) = .ok n ∧ n < 2 ^ 64
  type : args.type = some (.str quoted.tx.type) ∧ quoted.tx.type ∈ quoteTypes
  chain : ∃ n, quantity args.chainId = .ok n ∧ quantity (quoted.tx.fields .chainId) = .ok n
  keys : quoted.fees.map Prod.fst = feeKeys quoted.tx.type
  priority : quoted.tx.type = "0x2" → ∃ priority cap, quantity (quoted.fee "maxPriorityFeePerGas") = .ok priority ∧
    quantity (quoted.fee "maxFeePerGas") = .ok cap ∧ priority ≤ cap
  total : ∃ gas cap : ℕ, quantity (quoted.tx.fields .gas) = .ok gas ∧
    quantity (quoted.fee (capKey quoted.tx.type)) = .ok cap ∧ (gas * cap : ℤ) ≤ args.maxTotalFee
  expiry : ∃ (expiresAt : ℕ) (clock : ℤ), quantity (get args.quote "expiresAt") = .ok expiresAt ∧
    safeInteger? now = some clock ∧ clock < expiresAt * 1000 ∧ (expiresAt * 1000 : ℤ) ≤ clock + 31000
  hash : ∃ hash, get (optionOf args) "requestHash" = some (.str hash) ∧
    lowerCase (args.keccak256 (canonical quoted.tx)) = lowerCase hash

/-- What the caller supplied is what is normalized. -/
theorem supplied_of_get {transaction : Option Json} {key : Key} {v : Json}
    (h : get transaction key.name = some v) : supplied transaction key = some v := by
  rw [Fees.supplied, h]
  rfl

/-- A field that is read from the option is the field of the result. -/
theorem fee_eq {type : String} {option : Option Json} {tx : Tx} {key : String} (h : key ∈ feeKeys type) :
    Quoted.fee ⟨tx, (feeKeys type).map fun key ↦ (key, get option key)⟩ key = get option key := by
  rw [feeKeys] at h
  unfold Quoted.fee feeKeys
  split at h
  · rename_i htype
    rw [List.mem_singleton.1 h, if_pos htype]
    rfl
  · rename_i htype
    rw [if_neg htype]
    rcases List.mem_cons.1 h with rfl | h
    · rfl
    · rw [List.mem_singleton.1 h]
      rfl

/-- A quote that passes the first checks. -/
theorem checkQuote_eq_ok {args : QuoteArgs} {now : Option Json} {normalized : Tx} {chainId : ℕ}
    (h : checkQuote args now = .ok (normalized, chainId)) :
    normalizeTransaction args.transaction = .ok normalized ∧ quantity args.chainId = .ok chainId ∧
      unchanged (get args.transaction "chainId") chainId = .ok true ∧
      (∃ (expiresAt : ℕ) (clock : ℤ), quantity (get args.quote "expiresAt") = .ok expiresAt ∧
        safeInteger? now = some clock ∧ clock < expiresAt * 1000 ∧ (expiresAt * 1000 : ℤ) ≤ clock + 31000) ∧
      (args.type = some (.str (text args.type)) ∧ text args.type ∈ quoteTypes) ∧
      ∃ requested, quantity args.type = .ok requested ∧
        unchanged (get args.transaction "type") requested = .ok true := by
  simp only [checkQuote, Except.bind_eq_ok, raiseIf_eq_ok, Except.pure_eq_ok, exists_const, not_not,
    not_or, Option.any_eq_true, Bool.and_eq_true, decide_eq_true_eq, Prod.mk.injEq] at h
  obtain ⟨normalized, hnormalized, -, -, chainId, hchain, quotedChain, -, sameChain, hsameChain,
    ⟨-, rfl⟩, expiresAt, hexpires, ⟨clock, hclock, hnow⟩, ⟨type, htype, htypes⟩, requested, hrequested,
    sameType, hsameType, rfl, -, rfl, rfl⟩ := h
  have htypearg := string?_eq_some.1 htype
  have htext : text args.type = type := by
    rw [htypearg]
    rfl
  refine ⟨hnormalized, hchain, hsameChain, ⟨expiresAt, clock, hexpires, hclock, hnow⟩, ⟨?_, ?_⟩, requested,
    hrequested, hsameType⟩
  · rw [htext]
    exact htypearg
  · rw [htext]
    exact List.contains_iff_mem.1 htypes

/-- The transaction that the hash of the option is compared with. -/
theorem bindOption_eq_ok {args : QuoteArgs} {normalized tx : Tx} {chainId : ℕ}
    (h : bindOption args normalized chainId = .ok tx) : ∃ gas nonce,
      resolve "gas" (get args.transaction "gas") (get (optionOf args) "gas") = .ok gas ∧
      resolve "nonce" (get args.transaction "nonce") (get args.quote "nonce") = .ok nonce ∧
      tx = { normalized with gas := toHex gas, nonce := toHex nonce, type := text args.type,
                             chainId := toHex chainId } ∧
      validateTransaction tx.fields = .ok ⟨⟩ ∧
      (∃ n, quantity (tx.fields .nonce) = .ok n ∧ n < 2 ^ 64) ∧
      (∃ n, quantity (tx.fields .chainId) = .ok n ∧ n < 2 ^ 64) ∧
      ∃ hash, get (optionOf args) "requestHash" = some (.str hash) ∧
        lowerCase (args.keccak256 (canonical tx)) = lowerCase hash := by
  simp only [bindOption, Except.bind_eq_ok, raiseIf_eq_ok, Except.pure_eq_ok, exists_const, not_not,
    not_or, Option.any_eq_true, Bool.and_eq_true, decide_eq_true_eq] at h
  obtain ⟨-, u, -, gas, hgas, nonce, hnonce, u', hvalid, nonce', hnonce', chainId', hchain', ⟨hnoncele, hchainle⟩,
    ⟨hash, hhash, -, hkeccak⟩, rfl⟩ := h
  exact ⟨gas, nonce, hgas, hnonce, rfl, hvalid, ⟨nonce', hnonce', by omega⟩, ⟨chainId', hchain', by omega⟩,
    hash, string?_eq_some.1 hhash, hkeccak⟩

/-- The fee that is accepted. -/
theorem priceOption_eq_ok {args : QuoteArgs} {tx : Tx} {quoted : Quoted} (h : priceOption args tx = .ok quoted) :
    quoted = ⟨tx, (feeKeys (text args.type)).map fun key ↦ (key, get (optionOf args) key)⟩ ∧
      ∃ cap priority gas, quantity (get (optionOf args) (capKey (text args.type))) = .ok cap ∧
        priorityOf (text args.type) (optionOf args) = .ok priority ∧ priority ≤ cap ∧
        quantity (get (optionOf args) "gas") = .ok gas ∧ (gas * cap : ℤ) ≤ args.maxTotalFee := by
  simp only [priceOption, Except.bind_eq_ok, raiseIf_eq_ok, Except.pure_eq_ok, exists_const, not_or] at h
  obtain ⟨cap, hcap, priority, hpriority, ⟨-, hle⟩, gas, hgas, estimatedFee, -, -, htotal, rfl⟩ := h
  exact ⟨rfl, cap, priority, gas, hcap, hpriority, by omega, hgas, Int.not_lt.1 htotal⟩

/-- What was checked again is what was written. -/
theorem quantity_written {tx : Tx}
    (hquantities : ∀ key, key.isQuantity = true → ∃ n, quantity (tx.fields key) = .ok n) {key : Key} {n : ℕ}
    (hkey : key.isQuantity = true) (heq : tx.get key = toHex n) : quantity (tx.fields key) = .ok n := by
  obtain ⟨m, hm⟩ := hquantities key hkey
  rw [Tx.fields, heq] at hm ⊢
  rw [hm, quantity_toHex hm]

/-- A quantity the caller supplied has been read. -/
theorem exists_quantity_of_get {transaction : Option Json} {tx : Tx} (h : normalizeTransaction transaction = .ok tx)
    {key : Key} {v : Json} (hkey : key.isQuantity = true) (hv : get transaction key.name = some v) :
    ∃ n, quantity (some v) = .ok n := by
  have hfield := normalizeTransaction_eq_ok h key
  rw [if_pos hkey, supplied_of_get hv] at hfield
  obtain ⟨n, hn, -⟩ := hfield
  exact ⟨n, hn⟩

/-- Sender and target have no default. -/
theorem normalizeTransaction_address {transaction : Option Json} {tx : Tx}
    (h : normalizeTransaction transaction = .ok tx) {key : Key} (hkey : key = .sender ∨ key = .to_) :
    ∃ s, get transaction key.name = some (.str s) ∧ tx.get key = lowerCase s := by
  have hfield := normalizeTransaction_eq_ok h key
  rcases hkey with rfl | rfl
  · rw [Fees.supplied, defaultOf, Option.or_none] at hfield
    exact hfield
  · rw [Fees.supplied, defaultOf, Option.or_none] at hfield
    exact hfield

theorem capKey_mem_feeKeys (type : String) : capKey type ∈ feeKeys type := by
  unfold capKey feeKeys
  split
  · exact List.mem_singleton_self _
  · exact List.mem_cons_of_mem _ List.mem_cons_self

/-- The priority of a transaction of type 2 is a field of its fee. -/
theorem quantity_priority {type : String} {option : Option Json} {tx : Tx} {priority : ℕ} (htype : type = "0x2")
    (h : priorityOf type option = .ok priority) :
    quantity (Quoted.fee ⟨tx, (feeKeys type).map fun key ↦ (key, get option key)⟩ "maxPriorityFeePerGas") =
      .ok priority := by
  have hkeys : feeKeys type = ["maxPriorityFeePerGas", "maxFeePerGas"] := by
    rw [htype]
    rfl
  rw [priorityOf, if_pos htype] at h
  rw [fee_eq (by rw [hkeys]; exact List.mem_cons_self)]
  exact h

theorem feeQuoteTransaction_bound {args : QuoteArgs} {now : Option Json} {quoted : Quoted}
    (h : feeQuoteTransaction args now = .ok quoted) : Bound args now quoted := by
  simp only [feeQuoteTransaction, Except.bind_eq_ok] at h
  obtain ⟨⟨normalized, chainId⟩, hquote, tx, hbind, hprice⟩ := h
  obtain ⟨hnormalized, hchain, hsameChain, hexpiry, ⟨htypearg, htypes⟩, requested, hrequested, hsameType⟩ :=
    checkQuote_eq_ok hquote
  obtain ⟨gas, nonce, hgas, hnonce, htx, hvalid, hnoncelt, hchainlt, hhash⟩ := bindOption_eq_ok hbind
  obtain ⟨rfl, cap, priority, gas', hcap, hpriority, hle, hgas', htotal⟩ := priceOption_eq_ok hprice
  have hfields := normalizeTransaction_eq_ok hnormalized
  obtain ⟨hquantities, hgasbounds⟩ := validateTransaction_eq_ok hvalid
  obtain ⟨hoptiongas, hsuppliedgas⟩ := resolve_eq_ok hgas
  obtain ⟨-, hsuppliednonce⟩ := resolve_eq_ok hnonce
  have htypeeq : tx.type = text args.type := by rw [htx]
  have hgaseq : quantity (tx.fields .gas) = .ok gas := quantity_written hquantities rfl (by rw [htx]; rfl)
  have hnonceeq : quantity (tx.fields .nonce) = .ok nonce := quantity_written hquantities rfl (by rw [htx]; rfl)
  have hchaineq : quantity (tx.fields .chainId) = .ok chainId := quantity_written hquantities rfl (by rw [htx]; rfl)
  exact {
    sender := htx ▸ normalizeTransaction_address hnormalized (.inl rfl)
    to_ := htx ▸ normalizeTransaction_address hnormalized (.inr rfl)
    value := by
      obtain ⟨n, hn, heq⟩ := hfields .value
      exact ⟨n, hn, quantity_written hquantities rfl (by rw [htx]; exact heq)⟩
    data := by
      rw [htx]
      exact hfields .data
    supplied := by
      intro key hkey v hv
      have hquantity : key.isQuantity = true := by
        revert hkey
        cases key <;> decide
      obtain ⟨n, hn⟩ := exists_quantity_of_get hnormalized hquantity hv
      refine ⟨n, hn, ?_⟩
      rw [← hv] at hn
      cases key with
      | gas => rw [hsuppliedgas n hn, hgaseq]
      | nonce => rw [hsuppliednonce n hn, hnonceeq]
      | chainId => rw [unchanged_eq_ok hsameChain hn, hchaineq]
      | type => rw [unchanged_eq_ok hsameType hn, ← hrequested, htypearg, Tx.fields, Tx.get, htypeeq]
      | sender => cases hquantity
      | to_ => cases hquantity
      | value => exact absurd hkey (by decide)
      | data => cases hquantity
    gas := hgasbounds
    nonce := hnoncelt
    chainId := hchainlt
    type := ⟨htypeeq ▸ htypearg, htypeeq ▸ htypes⟩
    chain := ⟨chainId, hchain, hchaineq⟩
    keys := by
      rw [List.map_map, htypeeq]
      exact List.map_id _
    priority := by
      intro htype2
      rw [htypeeq] at htype2
      refine ⟨priority, cap, quantity_priority htype2 hpriority, ?_, hle⟩
      have hcapkey : capKey (text args.type) = "maxFeePerGas" := by
        rw [htype2]
        rfl
      rw [← hcapkey, fee_eq (capKey_mem_feeKeys _)]
      exact hcap
    total := by
      rw [hoptiongas] at hgas'
      cases hgas'
      refine ⟨gas, cap, hgaseq, ?_, htotal⟩
      rw [htypeeq, fee_eq (capKey_mem_feeKeys _)]
      exact hcap
    expiry := hexpiry
    hash := hhash }

/-! ## Sent transactions -/

/-- The wallet is on the chain of the transaction, has its account, and would give it its nonce. -/
structure Agrees (wallet : WalletRequest → Except String Json) (tx : Tx) : Prop where
  chain : ∃ chain n, wallet .chainId = .ok chain ∧ walletQuantity (some chain) "chain ID" = .ok n ∧
    quantity (tx.fields .chainId) = .ok n
  account : ∃ accounts account, wallet .accounts = .ok (.arr accounts) ∧ .str account ∈ accounts ∧
    lowerCase account = tx.sender
  nonce : ∃ nonce n, wallet (.transactionCount tx.sender) = .ok nonce ∧
    walletQuantity (some nonce) "pending nonce" = .ok n ∧ quantity (tx.fields .nonce) = .ok n

theorem checkWallet_agrees {wallet : WalletRequest → Except String Json} {tx : Tx} {u : Unit}
    (h : checkWallet wallet tx = .ok u) : Agrees wallet tx := by
  simp only [checkWallet, Except.bind_eq_ok, raiseIf_eq_ok, exists_const, not_not, Option.any_eq_true,
    List.any_eq_true, decide_eq_true_eq] at h
  obtain ⟨chain, hchain, accounts, haccounts, nonce, hnonce, n, hn, n', hn', rfl, ⟨items, hitems, account, hmem,
    text, htext, hsender⟩, m, hm, m', hm', rfl⟩ := h
  refine ⟨⟨chain, n, hchain, hn, hn'⟩, ⟨items, text, ?_, ?_, hsender⟩, ⟨nonce, m, hnonce, hm, hm'⟩⟩
  · rw [haccounts]
    cases accounts with
    | arr l =>
      cases hitems
      rfl
    | null => cases hitems
    | bool => cases hitems
    | num => cases hitems
    | str => cases hitems
    | obj => cases hitems
  · obtain heq := string?_eq_some.1 htext
    cases heq
    exact hmem

/-- The clock decides whether a quote is accepted, not what is accepted. -/
theorem feeQuoteTransaction_unique {args : QuoteArgs} {now now' : Option Json} {quoted quoted' : Quoted}
    (h : feeQuoteTransaction args now = .ok quoted) (h' : feeQuoteTransaction args now' = .ok quoted') :
    quoted = quoted' := by
  simp only [feeQuoteTransaction, Except.bind_eq_ok] at h h'
  obtain ⟨⟨normalized, chainId⟩, hquote, tx, hbind, hprice⟩ := h
  obtain ⟨⟨normalized', chainId'⟩, hquote', tx', hbind', hprice'⟩ := h'
  obtain ⟨hnormalized, hchain, -⟩ := checkQuote_eq_ok hquote
  obtain ⟨hnormalized', hchain', -⟩ := checkQuote_eq_ok hquote'
  rw [hnormalized] at hnormalized'
  cases hnormalized'
  rw [hchain] at hchain'
  cases hchain'
  rw [hbind] at hbind'
  cases hbind'
  rw [hprice] at hprice'
  exact Except.ok.inj hprice'

/-- What is sent was accepted twice, and the wallet agreed with it. -/
theorem sendFeeQuotedTransaction_sends {wallet : WalletRequest → Except String Json} {args : QuoteArgs}
    {now now' : Option Json} {quoted : Quoted}
    (h : .sendTransaction quoted ∈ (sendFeeQuotedTransaction wallet args now now').1) :
    feeQuoteTransaction args now = .ok quoted ∧ feeQuoteTransaction args now' = .ok quoted ∧
      Agrees wallet quoted.tx := by
  have hasked : ∀ sender, WalletRequest.sendTransaction quoted ∉ [.chainId, .accounts, .transactionCount sender] := by
    intro sender hmem
    rcases List.mem_cons.1 hmem with hmem | hmem
    · cases hmem
    · rcases List.mem_cons.1 hmem with hmem | hmem
      · cases hmem
      · cases List.mem_singleton.1 hmem
  rw [sendFeeQuotedTransaction] at h
  split at h
  · exact absurd h List.not_mem_nil
  · rename_i first hfirst
    split at h
    · exact absurd h (hasked _)
    · rename_i u hwallet
      split at h
      · exact absurd h (hasked _)
      · rename_i second hsecond
        rcases List.mem_append.1 h with h | h
        · exact absurd h (hasked _)
        · cases List.mem_singleton.1 h
          have hsame := feeQuoteTransaction_unique hfirst hsecond
          subst hsame
          exact ⟨hfirst, hsecond, checkWallet_agrees hwallet⟩

/-- **What a quote can change.**  An accepted transaction is bound to the caller's, whatever the quote is; and
the wallet is asked to send nothing but an accepted transaction, when it agrees with it. -/
theorem feeQuote_sound (args : QuoteArgs) :
    (∀ now quoted, feeQuoteTransaction args now = .ok quoted → Bound args now quoted) ∧
      ∀ wallet now now' quoted,
        .sendTransaction quoted ∈ (sendFeeQuotedTransaction wallet args now now').1 →
          feeQuoteTransaction args now' = .ok quoted ∧ Bound args now' quoted ∧ Agrees wallet quoted.tx := by
  refine ⟨fun _ _ h ↦ feeQuoteTransaction_bound h, fun wallet now now' quoted h ↦ ?_⟩
  obtain ⟨-, hquoted, hagrees⟩ := sendFeeQuotedTransaction_sends h
  exact ⟨hquoted, feeQuoteTransaction_bound hquoted, hagrees⟩

def zeroHash : String := "0x" ++ String.ofList (List.replicate 64 '0')

/-- A caller that leaves gas, nonce and type open. -/
def openArgs : QuoteArgs where
  quote := some <| .obj
    [("version", .num 1), ("chainId", .str "0x1"), ("nonce", .str "0x7"), ("expiresAt", .str "0x64"),
      ("options", .arr [.obj
        [("type", .str "0x2"), ("gas", .str "0x186a0"), ("requestHash", .str (zeroHash)),
          ("estimatedFee", .str "0x1"), ("maxPriorityFeePerGas", .str "0x5"), ("maxFeePerGas", .str "0xf")]])]
  transaction := some <| .obj
    [("from", .str "0x1111111111111111111111111111111111111111"),
      ("to", .str "0x2222222222222222222222222222222222222222"), ("data", .str "0x1234")]
  type := some (.str "0x2")
  chainId := some (.str "0x1")
  keccak256 := fun _ ↦ zeroHash
  maxTotalFee := 1500000

def openWallet : WalletRequest → Except String Json
  | .chainId => .ok (.str "0x01")
  | .accounts => .ok (.arr [.str "0x1111111111111111111111111111111111111111"])
  | .transactionCount _ => .ok (.num 7)
  | .sendTransaction _ => .ok (.str "0x1")

def openQuoted : Quoted where
  tx := ⟨"0x2", "0x1", "0x1111111111111111111111111111111111111111",
    "0x2222222222222222222222222222222222222222", "0x7", "0x186a0", "0x0", "0x1234"⟩
  fees := [("maxPriorityFeePerGas", some (.str "0x5")), ("maxFeePerGas", some (.str "0xf"))]

theorem feeQuote_sound_open : Bound openArgs (some (.num 90000)) openQuoted ∧ Agrees openWallet openQuoted.tx :=
  have hsent : .sendTransaction openQuoted ∈
      (sendFeeQuotedTransaction openWallet openArgs (some (.num 80000)) (some (.num 90000))).1 := by
    decide +kernel
  ((feeQuote_sound openArgs).2 _ _ _ _ hsent).2

end Fees
