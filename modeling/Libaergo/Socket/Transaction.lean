import Libaergo.Socket.Machine

/-!
# Synchronous transactions (`aergo.c`)

`aergo_transfer_bignum__internal`, `aergo_multicall__internal` and `aergo_call_smart_contract__internal`
without a callback, from their argument checks to the value they return: the chain id and the account
state are asked for where they are not known, each with a synchronous call of its own, the transaction is
built, and its request is sent and waited for.

What happens during a wait is a list of acts that ends with the return of the call.
-/

namespace Libaergo

open Lib

/-! ### Waiting -/

/-- The acts until the running call has returned. -/
def World.await (E : Env) : World → List Act → Option World
  | w, [] => if w.running.isSome then none else some w
  | w, a :: as => if w.running.isSome then (w.step E a).bind fun w' => World.await E w' as else none

/-- A synchronous call, and what happens until it returns.  Inside a user callback it returns at
once. -/
def World.syncCall (E : Env) (w : World) (c : Call) (as : List Act) : Option World :=
  if w.running.isSome then
    if w.pc = some .perform ∧ as = [] then some (w.call c) else none
  else (w.call c).await E as

/-- How a synchronous call goes: the sending of its request, and the acts until it returns. -/
structure Wait where
  start : Start
  acts : List Act

/-- The same for the three calls that a transaction may make. -/
structure Waits where
  status : Wait
  account : Wait
  commit : Wait

/-! ### The chain id and the account -/

def blockchainStatusCall (start : Start) : Call where
  service := .blockchainStatus
  callback := none
  stream := nofun
  wait := fun _ => rfl
  arg := 0
  returnPtr := none
  returnSize := 0
  txnHash := Vector.replicate 32 0
  account := none
  start := start

def accountStateCall (account : ℕ) (start : Start) : Call where
  service := .accountState
  callback := none
  stream := nofun
  wait := fun _ => rfl
  arg := 0
  returnPtr := none
  returnSize := 0
  txnHash := Vector.replicate 32 0
  account := some account
  start := start

def checkBlockchainIdHash (E : Env) (w : World) (wait : Wait) : Option (Bool × World) :=
  if w.blockchainIdHash.toList.head? = some 0 then do
    let w ← w.syncCall E (blockchainStatusCall wait.start) wait.acts
    return (w.blockchainIdHash.toList.head? ≠ some 0, w)
  else some (true, w)

/-- The public key as the Ledger shows it (`ledger_get_account_public_key`), and the key that belongs to
a secret one (`secp256k1_ec_pubkey_create`, serialized). -/
structure PublicKeys where
  ledger : Except String Address
  create : Vector UInt8 32 → Option Address

/-- The public key of the account in `aergo_get_account_state`. -/
def publicKey (P : PublicKeys) (account : Account) : Except String Address :=
  if account.pubkey.toList.take 2 = [0, 0] then
    if account.useLedger then P.ledger
    else
      match P.create account.privkey with
      | some pubkey => .ok pubkey
      | none => .error "failed to get public key from the secret key"
  else .ok account.pubkey

/-- `aergo_get_account_state`: the public key, or the text written to `error` if one was.  The message is
35 bytes long and fits its buffer of 128. -/
def aergoGetAccountState (E : Env) (P : PublicKeys) (w : World) (a : ℕ) (account : Account)
    (wait : Wait) : Option (Except (Option String) Address × World) :=
  match publicKey P account with
  | .error error => some (.error (some error), w)
  | .ok pubkey => do
    let w := { w with
      accounts := Function.update w.accounts a { w.accounts a with isUpdated := false } }
    let w ← w.syncCall E (accountStateCall a wait.start) wait.acts
    return (if (w.accounts a).isUpdated then .ok pubkey else .error none, w)

/-- The account state where it was not retrieved before. -/
def accountKey (E : Env) (P : PublicKeys) (w : World) (a : ℕ) (account : Account) (wait : Wait) :
    Option (Except (Option String) Address × World) :=
  if (w.accounts a).isUpdated then some (.ok account.pubkey, w)
  else aergoGetAccountState E P w a account wait

/-! ### The transaction -/

/-- What a synchronous call left: the value it returned, the transaction hash if the transaction was
built, and the world. -/
structure Returned where
  value : Bool
  txnHash : Option Hash
  world : World

/-- What the three functions work with: the environment, the devices, the bytes on the stack. -/
structure Setup where
  env : Env
  sha256 : Bytes → Hash
  devices : Devices
  publicKeys : PublicKeys
  stack : ℕ → UInt8

/-- The caller hands the receipt over, with whatever is in it. -/
def World.handOver (w : World) (receipt : ℕ) : World := w.setReceipt (some receipt) .initial

/-- `strcpy(receipt->status, "FAILED"); strcpy(receipt->ret, error)` -/
def World.failReceipt (w : World) (receipt : ℕ) (error : Option String) : World :=
  w.setReceipt (some receipt) (.failed (error.map fun error => error.toUTF8.toList))

def commitCall (service : Service) (hs : service = .transfer ∨ service = .contractCall) (receipt : ℕ)
    (txnHash : Hash) (start : Start) : Call where
  service := service
  callback := none
  stream h := by rcases hs with rfl | rfl <;> cases h
  wait := fun _ => rfl
  arg := 0
  returnPtr := some receipt
  returnSize := 0
  txnHash := txnHash
  account := none
  start := start

/-- The entry points, with the arguments that are their own. -/
inductive EntryPoint where
  | transferBignum (toAccount amount : Bytes)
  | multicall (payload : Bytes)
  | callSmartContract (contractAddress function : Bytes) (args : Option Bytes)

/-- `{"Name":"function","Args":args}`, or without the arguments. -/
def callInfo (function : Bytes) (args : Option Bytes) : Bytes :=
  let name := [0x7b, 0x22, 0x4e, 0x61, 0x6d, 0x65, 0x22, 0x3a, 0x22] ++ function ++ [0x22]
  if args.getD [] ≠ [] then
    name ++ [0x2c, 0x22, 0x41, 0x72, 0x67, 0x73, 0x22, 0x3a] ++ args.getD [] ++ [0x7d]
  else name ++ [0x7d]

namespace EntryPoint

/-- The checks of the arguments; pointers are not null. -/
def Accepts : EntryPoint → Prop
  | .transferBignum _ amount => 0 < amount.length
  | _ => True

def mallocs : EntryPoint → List ℕ
  | .transferBignum _ _ => []
  | .multicall payload => [payload.length + 300]
  | .callSmartContract _ function args =>
    [function.length + (args.getD []).length + 32, function.length + (args.getD []).length + 300]

def psize : EntryPoint → ℕ
  | .transferBignum _ _ => 1024
  | .multicall payload => payload.length + 300
  | .callSmartContract _ function args => function.length + (args.getD []).length + 300

def encode : EntryPoint → EncodeCall
  | .transferBignum toAccount amount => .transfer toAccount (some amount)
  | .multicall payload => .multiCall payload
  | .callSmartContract contractAddress function args =>
    .contractCall contractAddress (callInfo function args)

def service : EntryPoint → Service
  | .transferBignum _ _ => .transfer
  | _ => .contractCall

lemma service_eq (t : EntryPoint) : t.service = .transfer ∨ t.service = .contractCall := by
  cases t with
  | transferBignum _ _ => exact .inl rfl
  | multicall _ => exact .inr rfl
  | callSmartContract _ _ _ => exact .inr rfl

end EntryPoint

instance (t : EntryPoint) : Decidable t.Accepts := by
  unfold EntryPoint.Accepts
  cases t <;> dsimp only <;> infer_instance

/-- What the work before `new_request` comes to: the function returns false as it is, or with
`FAILED` and the text in `error` if one was written, or the transaction is built. -/
inductive Prepared where
  | stopped (w : World)
  | failed (error : Option String) (w : World)
  | built (encoded : Encoded) (w : World)

/-- The common course of the three functions up to `new_request`, for the account `a`.  It is none where
the encoder is undefined, or where the acts of a wait are not those of one. -/
def EntryPoint.prepare (S : Setup) (t : EntryPoint) (w : World) (a : ℕ) (account : Account)
    (waits : Waits) : Option Prepared :=
  if ¬ t.Accepts then some (.stopped w)
  else do
    let (known, w) ← checkBlockchainIdHash S.env w waits.status
    if known = false then return .stopped w
    let (key, w) ← accountKey S.env S.publicKeys w a account waits.account
    match key with
    | .error error => return .failed error w
    | .ok pubkey =>
      if t.mallocs.all S.env.malloc = false then return .stopped w
      let encoding ← t.encode.run S.sha256 S.devices S.stack w.blockchainIdHash t.psize
        { account with pubkey := pubkey, nonce := (w.accounts a).nonce }
      let w := { w with
        accounts := Function.update w.accounts a ⟨(w.accounts a).isUpdated, encoding.account.nonce⟩ }
      match encoding.result with
      | .error error => return .failed error w
      | .ok encoded => return .built encoded w

/-- The three functions, for the receipt at `receipt`. -/
def EntryPoint.run (S : Setup) (t : EntryPoint) (w : World) (receipt a : ℕ) (account : Account)
    (waits : Waits) : Option Returned := do
  match ← t.prepare S (w.handOver receipt) a account waits with
  | .stopped w => return ⟨false, none, w⟩
  | .failed error w => return ⟨false, none, w.failReceipt receipt error⟩
  | .built encoded w =>
    let c := commitCall t.service t.service_eq receipt encoded.txnHash waits.commit.start
    let w ← w.syncCall S.env c waits.commit.acts
    return ⟨w.returned.getD false, some encoded.txnHash, w⟩

def aergoTransferBignum (S : Setup) (w : World) (receipt fromAccount : ℕ) (account : Account)
    (toAccount amount : Bytes) (waits : Waits) : Option Returned :=
  (EntryPoint.transferBignum toAccount amount).run S w receipt fromAccount account waits

def aergoMulticall (S : Setup) (w : World) (receipt a : ℕ) (account : Account) (payload : Bytes)
    (waits : Waits) : Option Returned :=
  (EntryPoint.multicall payload).run S w receipt a account waits

def aergoCallSmartContractJson (S : Setup) (w : World) (receipt a : ℕ) (account : Account)
    (contractAddress function : Bytes) (args : Option Bytes) (waits : Waits) : Option Returned :=
  (EntryPoint.callSmartContract contractAddress function args).run S w receipt a account waits

end Libaergo
