import Libaergo.Conversions
import Libaergo.Lib.Overlay
import Libaergo.Nanopb.Records
import Libaergo.Queries

/-!
# The state of an account (`aergo.c`)

`handle_account_state_response` decodes a `State` into the account of the caller.  The balance and the
storage root are written by callbacks while the message is read; the nonce follows when it has been read to
its end.  A field that is not in the message leaves what the account has, a short storage root leaves the
bytes behind its end, and a message that fails leaves what was read before.

A balance is the number that is rounded to the `double`: nothing depends on the rounding.
-/

namespace Libaergo.State

open Lib Nanopb

/-- `struct aergo_account`, as far as the handler writes it. -/
structure Account where
  isUpdated : Bool
  nonce : ℕ
  balance : ℚ
  stateRoot : Hash
  deriving DecidableEq

lemma Account.ext_iff {a b : Account} : a = b ↔
    a.isUpdated = b.isUpdated ∧ a.nonce = b.nonce ∧ a.balance = b.balance ∧ a.stateRoot = b.stateRoot := by
  cases a
  cases b
  exact Account.mk.injEq .. ▸ Iff.rfl

/-! ### The callbacks -/

/-- `atof` on digits with a point, before the rounding. -/
def atof (text : Bytes) : ℚ :=
  match text.idxOf? 0x2e with
  | none => decNat text
  | some p => decimalValue (text.take p) (text.drop (p + 1))

def readBignumToDouble (value : Bytes) : Option ℚ :=
  if 64 < value.length then none
  else
    match bignumToString value 64 with
    | none => none
    | some (text, ret) => if ret ≤ 0 then none else some (atof text)

/-- The account while its message is read, and the nonce in `account_state`. -/
structure Reading where
  account : Account
  nonce : ℤ

def Reading.readBalance (d : Reading) (value : Bytes) : Option Reading :=
  (readBignumToDouble value).map fun q => { d with account := { d.account with balance := q } }

def Reading.readRoot (d : Reading) (value : Bytes) : Option Reading :=
  (readBlob d.account.stateRoot value).map fun root => { d with account := { d.account with stateRoot := root } }

/-- The callbacks that `handle_account_state_response` sets, and the number that it reads. -/
def stateEffects : Effects Reading where
  read path :=
    if path = [2] then some Reading.readBalance else if path = [4] then some Reading.readRoot else none
  store path value d := if path = [1] then { d with nonce := value } else d

/-- **`handle_account_state_response`**: its result, and the account. -/
def handleAccountStateResponse (account : Account) (m : Bytes) : Bool × Account :=
  match pbDecode Query.stateFields stateEffects.dest ⟨account, 0⟩ m with
  | (d, none) => (false, d.account)
  | (d, some _) => (true, { d.account with isUpdated := true, nonce := d.nonce.toNat })

/-! ### What is in the message -/

/-- What the decoder finds in a message. -/
def entries (m : Bytes) : List Entry := (record stateEffects.callbacks Query.stateFields m).1

/-- A value that its callback accepts. -/
def accepts : Entry → Bool
  | .number _ _ => true
  | .bytes path b =>
    if path = [2] then b.length ≤ 64 ∧ beNat b < 2 ^ 123 else if path = [4] then b.length ≤ 32 else true

/-- The message decodes, and all its values are accepted. -/
def Readable (m : Bytes) : Prop :=
  (record stateEffects.callbacks Query.stateFields m).2.isSome ∧ (entries m).all accepts

instance (m : Bytes) : Decidable (Readable m) := inferInstanceAs (Decidable (_ ∧ _))

/-- **The account is replaced exactly or not at all**: by the fields of the message, zero where there is
none, if the handler returns true, and by nothing if it returns false. -/
structure ReplacedExactly (account : Account) (m : Bytes) : Prop where
  replaced : (handleAccountStateResponse account m).1 = true →
    (handleAccountStateResponse account m).2.nonce = (lastNumber [1] (entries m)).toNat ∧
    (handleAccountStateResponse account m).2.balance = (beNat (lastBytes [2] (entries m)) : ℚ) / 10 ^ 18 ∧
    (handleAccountStateResponse account m).2.stateRoot.toList = padded 32 (lastBytes [4] (entries m))
  kept : (handleAccountStateResponse account m).1 = false → (handleAccountStateResponse account m).2 = account

/-- What the account has and what it gets agree where the handler does not see to it.  In a message that is
read to its end: the balance is there and below 10^32, or the account has none; and behind the end of the
storage root there were zeros.  In one that is not: what was read of it is what the account has. -/
def Replaces (account : Account) (m : Bytes) : Prop :=
  let root := account.stateRoot.toList
  let before := (entries m).takeWhile accepts
  (Readable m →
    (if values [2] (entries m) = [] then account.balance = 0 else beNat (lastBytes [2] (entries m)) < 10 ^ 32) ∧
    ∀ i, (lastBytes [4] (entries m)).length ≤ i → i < 32 → Latest (root :: values [4] (entries m)) i 0) ∧
  (¬ Readable m →
    (∀ b, (values [2] before).getLast? = some b → readBignumToDouble b = some account.balance) ∧
    ∀ i < 32, Latest (root :: values [4] before) i (root.getD i 0))

/-! ### The balance -/

section Balance

variable {value : Bytes} {q : ℚ}

lemma atof_point {integer decimals : Bytes} (h : 0x2e ∉ integer) :
    atof (integer ++ 0x2e :: decimals) = decimalValue integer decimals := by
  have htake : (integer ++ 0x2e :: decimals).take integer.length = integer := List.take_left' rfl
  have hdrop : (integer ++ 0x2e :: decimals).drop (integer.length + 1) = decimals := by
    rw [← List.drop_drop, List.drop_left' rfl]
    rfl
  rw [atof, idxOf?_append_cons decimals h]
  dsimp only
  rw [htake, hdrop]

/-- Up to 32 digits are read as their number. -/
lemma readBignumToDouble_small (hlen : value.length ≤ 64) (h : beNat value < 10 ^ 32) :
    readBignumToDouble value = some ((beNat value : ℚ) / 10 ^ 18) := by
  obtain ⟨digits, hdigits, hall, hnum, htext⟩ := bignumToString_small h
  have hback : (digits.drop 14).length = 18 := by rw [List.length_drop, hdigits]
  have hfront : 0x2e ∉ digits.take 14 := point_notMem fun c hc => hall c (List.mem_of_mem_take hc)
  rw [readBignumToDouble, if_neg (by omega), htext]
  dsimp only
  rw [if_neg (by decide), atof_point hfront, decimalValue_eq, List.take_append_drop, hnum, hback]

/-- More than 32 digits are read as less than 10^14. -/
lemma readBignumToDouble_large (hlen : value.length ≤ 64) (h : 10 ^ 32 ≤ beNat value)
    (hlt : beNat value < 2 ^ 123) : ∃ q < 10 ^ 14, readBignumToDouble value = some q := by
  obtain ⟨integer, decimals, hfourteen, hint, hdec, ret, htext⟩ := bignumToString_large h hlt
  have hret : ¬ ret ≤ 0 := by
    rw [bignumToString, Option.map_eq_some_iff] at htext
    obtain ⟨ds, -, hds⟩ := htext
    have hlen := (Prod.mk.inj hds).2
    omega
  refine ⟨decimalValue integer decimals, ?_, ?_⟩
  · have hbound := decimalValue_lt hint hdec
    rwa [hfourteen] at hbound
  · rw [readBignumToDouble, if_neg (by omega), htext]
    dsimp only
    rw [if_neg hret, atof_point (point_notMem hint)]

/-- Above 123 bits nothing is read. -/
lemma readBignumToDouble_isSome :
    (readBignumToDouble value).isSome ↔ value.length ≤ 64 ∧ beNat value < 2 ^ 123 := by
  by_cases hlen : value.length ≤ 64
  · by_cases hlt : beNat value < 2 ^ 123
    · refine iff_of_true ?_ ⟨hlen, hlt⟩
      by_cases h : beNat value < 10 ^ 32
      · rw [readBignumToDouble_small hlen h]
        rfl
      · obtain ⟨q, -, hq⟩ := readBignumToDouble_large hlen (not_lt.mp h) hlt
        rw [hq]
        rfl
    · refine iff_of_false ?_ fun h => hlt h.2
      rw [readBignumToDouble, if_neg (by omega), bignumToString_eq_none (not_lt.mp hlt)]
      exact Bool.false_ne_true
  · refine iff_of_false ?_ fun h => hlen h.1
    rw [readBignumToDouble, if_pos (not_le.mp hlen)]
    exact Bool.false_ne_true

lemma readBignumToDouble_exact (h : readBignumToDouble value = some q) :
    q = (beNat value : ℚ) / 10 ^ 18 ↔ beNat value < 10 ^ 32 := by
  obtain ⟨hlen, hlt⟩ := readBignumToDouble_isSome.mp (Option.isSome_iff_exists.mpr ⟨q, h⟩)
  by_cases hsmall : beNat value < 10 ^ 32
  · rw [readBignumToDouble_small hlen hsmall] at h
    exact iff_of_true (Option.some.inj h).symm hsmall
  · refine iff_of_false ?_ hsmall
    obtain ⟨q', hq', hread⟩ := readBignumToDouble_large hlen (not_lt.mp hsmall) hlt
    obtain rfl := Option.some.inj (h.symm.trans hread)
    rintro rfl
    have hbig : (10 : ℚ) ^ 32 ≤ beNat value := by exact_mod_cast not_lt.mp hsmall
    have hle : (10 : ℚ) ^ 14 ≤ (beNat value : ℚ) / 10 ^ 18 := by
      rw [le_div_iff₀ (by positivity), ← pow_add]
      exact hbig
    exact absurd hq' (not_lt.mpr hle)

end Balance

/-! ### What the entries do -/

section Run

variable {d d' : Reading} {account : Account} {entry : Entry} {es : List Entry} {m : Bytes}

lemma apply_cases (h : stateEffects.apply d entry = some d') :
    (∃ path v, entry = .number path v ∧ d' = if path = [1] then { d with nonce := v } else d) ∨
    (∃ b q, entry = .bytes [2] b ∧ readBignumToDouble b = some q ∧
      d' = { d with account := { d.account with balance := q } }) ∨
    (∃ b root, entry = .bytes [4] b ∧ readBlob d.account.stateRoot b = some root ∧
      d' = { d with account := { d.account with stateRoot := root } }) ∨
    (∃ path b, entry = .bytes path b ∧ path ≠ [2] ∧ path ≠ [4] ∧ d' = d) := by
  cases entry with
  | number path v => exact .inl ⟨path, v, rfl, (Option.some.inj h).symm⟩
  | bytes path b =>
    by_cases h2 : path = [2]
    · subst h2
      obtain ⟨q, hq, hd⟩ := Option.map_eq_some_iff.mp ((Effects.apply_bytes (by rfl) d b).symm.trans h)
      exact .inr (.inl ⟨b, q, rfl, hq, hd.symm⟩)
    · by_cases h4 : path = [4]
      · subst h4
        obtain ⟨root, hroot, hd⟩ := Option.map_eq_some_iff.mp ((Effects.apply_bytes (by rfl) d b).symm.trans h)
        exact .inr (.inr (.inl ⟨b, root, rfl, hroot, hd.symm⟩))
      · have hread : stateEffects.read path = none := (if_neg h2).trans (if_neg h4)
        rw [Effects.apply, hread] at h
        exact .inr (.inr (.inr ⟨path, b, rfl, h2, h4, (Option.some.inj h).symm⟩))

lemma apply_isSome (d : Reading) (entry : Entry) : (stateEffects.apply d entry).isSome = accepts entry := by
  cases entry with
  | number path v => rfl
  | bytes path b =>
    rw [Bool.eq_iff_iff, accepts]
    by_cases h2 : path = [2]
    · subst h2
      rw [if_pos rfl, Effects.apply_bytes (by rfl : _ = some Reading.readBalance), Reading.readBalance,
        Option.isSome_map, readBignumToDouble_isSome, decide_eq_true_iff]
    · by_cases h4 : path = [4]
      · subst h4
        rw [if_neg h2, if_pos rfl, Effects.apply_bytes (by rfl : _ = some Reading.readRoot), Reading.readRoot,
          Option.isSome_map, readBlob_isSome, decide_eq_true_iff]
      · have hread : stateEffects.read path = none := (if_neg h2).trans (if_neg h4)
        rw [if_neg h2, if_neg h4, Effects.apply, hread]
        exact iff_of_true rfl rfl

/-- The number that the callback for the balance makes of a value. -/
def amountOf (b : Bytes) : ℚ := (readBignumToDouble b).getD 0

/-- The nonce is the last in the message. -/
lemma run_nonce (h : (stateEffects.run ⟨account, 0⟩ es).2 = true) :
    (stateEffects.run ⟨account, 0⟩ es).1.nonce = lastNumber [1] es := by
  refine Effects.run_part Reading.nonce (Entry.updNumber [1]) (fun d entry d' happ => ?_) h
  obtain ⟨path, v, rfl, rfl⟩ | ⟨b, q, rfl, -, rfl⟩ | ⟨b, root, rfl, -, rfl⟩ | ⟨path, b, rfl, -, -, rfl⟩ :=
    apply_cases happ
  · rw [Entry.updNumber]
    split <;> rfl
  · rfl
  · rfl
  · rfl

/-- The balance is overwritten by every value of it. -/
lemma run_balance (h : (stateEffects.run ⟨account, 0⟩ es).2 = true) :
    (stateEffects.run ⟨account, 0⟩ es).1.account.balance =
      (values [2] es).foldl (fun _ b => amountOf b) account.balance := by
  rw [← foldl_updBytes]
  refine Effects.run_part (fun d => d.account.balance) (Entry.updBytes [2] fun _ b => amountOf b)
    (fun d entry d' happ => ?_) h
  obtain ⟨path, v, rfl, rfl⟩ | ⟨b, q, rfl, hq, rfl⟩ | ⟨b, root, rfl, -, rfl⟩ | ⟨path, b, rfl, h2, -, rfl⟩ :=
    apply_cases happ
  · rw [Entry.updBytes]
    split <;> rfl
  · rw [Entry.updBytes, if_pos rfl, amountOf, hq, Option.getD_some]
  · rfl
  · rw [Entry.updBytes, if_neg h2]

lemma run_root (h : (stateEffects.run ⟨account, 0⟩ es).2 = true) :
    (stateEffects.run ⟨account, 0⟩ es).1.account.stateRoot.toList =
      (values [4] es).foldl overlay account.stateRoot.toList := by
  rw [← foldl_updBytes]
  refine Effects.run_part (fun d => d.account.stateRoot.toList) (Entry.updBytes [4] overlay)
    (fun d entry d' happ => ?_) h
  obtain ⟨path, v, rfl, rfl⟩ | ⟨b, q, rfl, -, rfl⟩ | ⟨b, root, rfl, hroot, rfl⟩ | ⟨path, b, rfl, -, h4, rfl⟩ :=
    apply_cases happ
  · rw [Entry.updBytes]
    split <;> rfl
  · rfl
  · rw [Entry.updBytes, if_pos rfl]
    exact (readBlob_eq_some hroot).2
  · rw [Entry.updBytes, if_neg h4]

lemma run_rest (h : (stateEffects.run ⟨account, 0⟩ es).2 = true) :
    (stateEffects.run ⟨account, 0⟩ es).1.account.isUpdated = account.isUpdated ∧
      (stateEffects.run ⟨account, 0⟩ es).1.account.nonce = account.nonce := by
  have hfold : es.foldl (fun (rest : Bool × ℕ) _ => rest) (account.isUpdated, account.nonce) =
      (account.isUpdated, account.nonce) := List.foldl_fixed _
  refine Prod.mk.inj ((Effects.run_part (fun d => (d.account.isUpdated, d.account.nonce)) (fun rest _ => rest)
    (fun d entry d' happ => ?_) h).trans hfold)
  obtain ⟨path, v, rfl, rfl⟩ | ⟨b, q, rfl, -, rfl⟩ | ⟨b, root, rfl, -, rfl⟩ | ⟨path, b, rfl, -, -, rfl⟩ :=
    apply_cases happ
  · split <;> rfl
  · rfl
  · rfl
  · rfl

lemma foldl_amountOf (vs : List Bytes) (q : ℚ) :
    vs.foldl (fun _ b => amountOf b) q = (vs.getLast?.map amountOf).getD q := by
  rcases List.eq_nil_or_concat' vs with rfl | ⟨before, b, rfl⟩
  · rfl
  · rw [List.foldl_append, List.foldl_cons, List.foldl_nil, List.getLast?_concat, Option.map_some, Option.getD_some]

/-- The balance is that of the last value just when this is below 10^32, or there was none and none is in the message. -/
lemma foldl_amountOf_eq_iff {vs : List Bytes} (hvs : ∀ b ∈ vs, ∃ q, readBignumToDouble b = some q) (q : ℚ) :
    vs.foldl (fun _ b => amountOf b) q = (beNat (vs.getLastD []) : ℚ) / 10 ^ 18 ↔
      if vs = [] then q = 0 else beNat (vs.getLastD []) < 10 ^ 32 := by
  rw [foldl_amountOf]
  rcases List.eq_nil_or_concat' vs with rfl | ⟨before, b, rfl⟩
  · rw [if_pos rfl, List.getLast?_nil, Option.map_none, Option.getD_none, List.getLastD_nil]
    norm_num [beNat, leNat]
  · obtain ⟨q', hq⟩ := hvs b (List.mem_append_right _ (List.mem_singleton_self b))
    rw [if_neg (List.append_ne_nil_of_right_ne_nil _ (List.cons_ne_nil b [])), List.getLast?_concat, Option.map_some,
      Option.getD_some, List.getLastD_concat, amountOf, hq, Option.getD_some]
    exact readBignumToDouble_exact hq

lemma accepts_balance {b : Bytes} (h : ∀ entry ∈ es, accepts entry) (hb : b ∈ values [2] es) :
    ∃ q, readBignumToDouble b = some q := by
  have haccept := h _ (mem_values.mp hb)
  rw [accepts, if_pos rfl, decide_eq_true_iff] at haccept
  exact Option.isSome_iff_exists.mp (readBignumToDouble_isSome.mpr haccept)

lemma accepts_root {b : Bytes} (h : ∀ entry ∈ es, accepts entry) (hb : b ∈ values [4] es) : b.length ≤ 32 := by
  have haccept := h _ (mem_values.mp hb)
  rwa [accepts, if_neg (by decide), if_pos rfl, decide_eq_true_iff] at haccept

lemma handle_eq (account : Account) (m : Bytes) : handleAccountStateResponse account m =
    if Readable m then
      (true, { (stateEffects.run ⟨account, 0⟩ (entries m)).1.account with
        isUpdated := true, nonce := (stateEffects.run ⟨account, 0⟩ (entries m)).1.nonce.toNat })
    else (false, (stateEffects.run ⟨account, 0⟩ (entries m)).1.account) := by
  unfold handleAccountStateResponse
  by_cases h : Readable m
  · obtain ⟨rest, hdecode⟩ := pbDecode_of_accepts accepts apply_isSome h ⟨account, 0⟩
    rw [hdecode, if_pos h, entries]
  · rw [pbDecode_of_not_accepts accepts apply_isSome h, if_neg h, entries]

lemma replacedExactly_of_readable (h : Readable m) : ReplacedExactly account m ↔
    (if values [2] (entries m) = [] then account.balance = 0 else beNat (lastBytes [2] (entries m)) < 10 ^ 32) ∧
      ∀ i, (lastBytes [4] (entries m)).length ≤ i → i < 32 →
        Latest (account.stateRoot.toList :: values [4] (entries m)) i 0 := by
  have hhandle := handle_eq account m
  rw [if_pos h] at hhandle
  have hall : ∀ entry ∈ entries m, accepts entry := List.all_eq_true.mp h.2
  have hrun : (stateEffects.run ⟨account, 0⟩ (entries m)).2 = true :=
    (Effects.run_all accepts apply_isSome).trans h.2
  have hbalance : (handleAccountStateResponse account m).2.balance =
      (beNat (lastBytes [2] (entries m)) : ℚ) / 10 ^ 18 ↔
      if values [2] (entries m) = [] then account.balance = 0
      else beNat (lastBytes [2] (entries m)) < 10 ^ 32 := by
    rw [hhandle]
    dsimp only
    rw [run_balance hrun]
    exact foldl_amountOf_eq_iff (fun b hb => accepts_balance hall hb) _
  have hroot : (handleAccountStateResponse account m).2.stateRoot.toList = padded 32 (lastBytes [4] (entries m)) ↔
      ∀ i, (lastBytes [4] (entries m)).length ≤ i → i < 32 →
        Latest (account.stateRoot.toList :: values [4] (entries m)) i 0 := by
    rw [hhandle]
    dsimp only
    rw [run_root hrun]
    exact foldl_overlay_eq_padded Vector.length_toList fun v hv => accepts_root hall hv
  have hnonce : (handleAccountStateResponse account m).2.nonce = (lastNumber [1] (entries m)).toNat := by
    rw [hhandle]
    dsimp only
    rw [run_nonce hrun]
  have htrue : (handleAccountStateResponse account m).1 = true := by rw [hhandle]
  constructor
  · intro hexact
    obtain ⟨-, hb, hr⟩ := hexact.replaced htrue
    exact ⟨hbalance.mp hb, hroot.mp hr⟩
  · rintro ⟨hb, hr⟩
    refine ⟨fun _ => ⟨hnonce, hbalance.mpr hb, hroot.mpr hr⟩, fun hfalse => ?_⟩
    rw [htrue] at hfalse
    cases hfalse

lemma replacedExactly_of_not_readable (h : ¬ Readable m) : ReplacedExactly account m ↔
    (∀ b, (values [2] ((entries m).takeWhile accepts)).getLast? = some b →
      readBignumToDouble b = some account.balance) ∧
    ∀ i < 32, Latest (account.stateRoot.toList :: values [4] ((entries m).takeWhile accepts)) i
      (account.stateRoot.toList.getD i 0) := by
  have hhandle := handle_eq account m
  rw [if_neg h] at hhandle
  have hrun := @Effects.run_takeWhile _ stateEffects ⟨account, 0⟩ (entries m) accepts apply_isSome
  have hall : ∀ entry ∈ (entries m).takeWhile accepts, accepts entry := fun entry => List.mem_takeWhile_imp
  generalize (entries m).takeWhile accepts = before at hrun hall ⊢
  have hsuccess : (stateEffects.run ⟨account, 0⟩ before).2 = true := by rw [hrun]
  have hbalance := run_balance hsuccess
  have hroot := run_root hsuccess
  have hrest := run_rest hsuccess
  have hfst := congrArg Prod.fst hrun
  have hkept : (handleAccountStateResponse account m).2 = account ↔
      (stateEffects.run ⟨account, 0⟩ before).1.account.balance = account.balance ∧
      (stateEffects.run ⟨account, 0⟩ before).1.account.stateRoot.toList = account.stateRoot.toList := by
    rw [hhandle, hfst]
    dsimp only at hfst ⊢
    rw [← hfst]
    generalize (stateEffects.run ⟨account, 0⟩ before).1.account = a at hrest
    rw [Account.ext_iff, Vector.toList_inj]
    simp [hrest]
  rw [hbalance, foldl_amountOf, hroot,
    foldl_overlay_eq_self Vector.length_toList fun v hv => accepts_root hall hv] at hkept
  have hlast : ((values [2] before).getLast?.map amountOf).getD account.balance = account.balance ↔
      ∀ b, (values [2] before).getLast? = some b → readBignumToDouble b = some account.balance := by
    cases hb : (values [2] before).getLast? with
    | none => simp
    | some b =>
      obtain ⟨q, hq⟩ := accepts_balance hall (List.mem_of_getLast? hb)
      simp [amountOf, hq]
  have hfalse : (handleAccountStateResponse account m).1 = false := by rw [hhandle]
  rw [hlast] at hkept
  constructor
  · exact fun hexact => hkept.mp (hexact.kept hfalse)
  · refine fun hcond => ⟨fun htrue => ?_, fun _ => hkept.mpr hcond⟩
    rw [hfalse] at htrue
    cases htrue

end Run

/-- **The accounts and messages for which the account is replaced exactly or not at all.** -/
theorem replacedExactly_iff (account : Account) (m : Bytes) : ReplacedExactly account m ↔ Replaces account m := by
  unfold Replaces
  by_cases h : Readable m
  · rw [replacedExactly_of_readable h]
    exact ⟨fun hcond => ⟨fun _ => hcond, fun hnot => absurd h hnot⟩, fun hcond => hcond.1 h⟩
  · rw [replacedExactly_of_not_readable h]
    exact ⟨fun hcond => ⟨fun hyes => absurd hyes h, fun _ => hcond⟩, fun hcond => hcond.2 h⟩

def richAccount : Account := ⟨false, 3, 5, Vector.replicate 32 0⟩

/-- **A balance that is not in the message stays, and one that is stays when the message fails**: the empty
`State` leaves 5, and a balance of 7 · 10^-18 is written before the message breaks off. -/
theorem omitted_balance_stays :
    (handleAccountStateResponse richAccount []).1 = true ∧
      (handleAccountStateResponse richAccount []).2.balance = 5 ∧ ¬ ReplacedExactly richAccount [] ∧
      (handleAccountStateResponse richAccount [0x12, 0x01, 0x07, 0x22]).1 = false ∧
      (handleAccountStateResponse richAccount [0x12, 0x01, 0x07, 0x22]).2.balance = 7 / 10 ^ 18 ∧
      ¬ ReplacedExactly richAccount [0x12, 0x01, 0x07, 0x22] := by
  have hfalse : (handleAccountStateResponse richAccount [0x12, 0x01, 0x07, 0x22]).1 = false := by decide +kernel
  have hbalance : (handleAccountStateResponse richAccount [0x12, 0x01, 0x07, 0x22]).2.balance = 7 / 10 ^ 18 := by
    decide +kernel
  refine ⟨rfl, rfl, fun h => ?_, hfalse, hbalance, fun h => ?_⟩
  · obtain ⟨-, hzero, -⟩ := h.replaced rfl
    have hfive : (5 : ℚ) = 0 / 10 ^ 18 := hzero
    norm_num at hfive
  · have hkept := congrArg Account.balance (h.kept hfalse)
    rw [hbalance] at hkept
    have hseven : (7 : ℚ) / 10 ^ 18 = 5 := hkept
    norm_num at hseven

/-! ### The accounts of an instance -/

def decodeNonce (m : Bytes) : Option ℕ := if Readable m then some (lastNumber [1] (entries m)).toNat else none

def reading (E : Env) : Env :=
  { E with codec := { E.codec with accountState := fun m => (decodeNonce m).map UInt64.ofNat } }

/-- What the handler does to an account is what it does in the world of an instance. -/
theorem handle_reading {E : Env} {w : World} {r : ReqId} {a : ℕ} (account : Account) (m : Bytes)
    (ha : (w.heap r).account = some a) :
    Libaergo.handleAccountStateResponse (reading E) w r m =
      ((handleAccountStateResponse account m).1,
        if (handleAccountStateResponse account m).1 then
          { w with accounts :=
            Function.update w.accounts a ⟨true, UInt64.ofNat (handleAccountStateResponse account m).2.nonce⟩ }
        else w) := by
  unfold Libaergo.handleAccountStateResponse reading decodeNonce
  dsimp only
  rw [ha, handle_eq]
  by_cases h : Readable m
  · have hrun : (stateEffects.run ⟨account, 0⟩ (entries m)).2 = true :=
      (Effects.run_all accepts apply_isSome).trans h.2
    rw [if_pos h, if_pos h, Option.map_some]
    dsimp only
    rw [if_pos rfl, run_nonce hrun]
  · rw [if_neg h, if_neg h, Option.map_none]
    dsimp only
    rw [if_neg Bool.false_ne_true]

/-! ### Well-formed messages -/

section Encoded

variable {m : Bytes} {es : List Entry}

lemma stateEffects_callbacks (path : List ℕ) : stateEffects.callbacks path ↔ path = [2] ∨ path = [4] := by
  unfold Effects.callbacks stateEffects
  dsimp only
  split_ifs with h2 h4
  · exact iff_of_true rfl (.inl h2)
  · exact iff_of_true rfl (.inr h4)
  · exact iff_of_false Bool.false_ne_true (by simp [h2, h4])

/-- **A well-formed `State` is read as it was encoded**, if its values are accepted. -/
theorem entries_encodes (hm : Encodes Query.stateFields [] m es) :
    lastNumber [1] (entries m) = lastNumber [1] es ∧ values [2] (entries m) = values [2] es ∧
      values [4] (entries m) = values [4] es ∧
      (Readable m ↔ (∀ b ∈ values [2] es, b.length ≤ 64 ∧ beNat b < 2 ^ 123) ∧ ∀ b ∈ values [4] es, b.length ≤ 32) := by
  have hrecord := record_encodes stateEffects.callbacks hm
  have hentries : entries m = es.filter (Entry.visible stateEffects.callbacks) := congrArg Prod.fst hrecord
  have h2 : values [2] (entries m) = values [2] es := by
    rw [hentries, values_filter ((stateEffects_callbacks [2]).mpr (.inl rfl))]
  have h4 : values [4] (entries m) = values [4] es := by
    rw [hentries, values_filter ((stateEffects_callbacks [4]).mpr (.inr rfl))]
  refine ⟨by rw [hentries, lastNumber_filter], h2, h4, ?_⟩
  unfold Readable
  rw [hrecord, ← h2, ← h4, List.all_eq_true]
  constructor
  · rintro ⟨-, hall⟩
    refine ⟨fun b hb => ?_, fun b hb => accepts_root hall hb⟩
    obtain ⟨q, hq⟩ := accepts_balance hall hb
    exact readBignumToDouble_isSome.mp (Option.isSome_iff_exists.mpr ⟨q, hq⟩)
  · rintro ⟨hbalance, hroot⟩
    refine ⟨rfl, fun entry hmem => ?_⟩
    cases entry with
    | number path v => rfl
    | bytes path b =>
      rw [accepts]
      split_ifs with h2 h4
      · subst h2
        exact decide_eq_true (hbalance b (mem_values.mpr hmem))
      · subst h4
        exact decide_eq_true (hroot b (mem_values.mpr hmem))
      · rfl

end Encoded

end Libaergo.State
