import Libaergo.Socket.Chunking
import Mathlib.Data.List.TakeDrop

/-!
# Hostile length prefixes

The write callback takes the size of a message from four bytes that the server chose, adds five to it
modulo 2^32, and counts what it receives in C ints.  `SafeFeed` says that its loop ends on every chunk,
that every copy stays inside the response and the chunk, and that `process_response` gets a whole header
at least.  The messages of a chunk, read with natural numbers (`pieces`), decide it: the callback is safe
exactly if each of them fits (`safeFeed_iff`).
-/

namespace Libaergo

open Lib

/-! ### Safe passes -/

/-- A receiver with the size of the allocation of its response, and the state of the handlers. -/
structure Reception (σ : Type*) where
  receiver : Receiver
  allocated : ℕ
  state : σ

section Safe

variable {σ : Type*} (H : Handlers σ) (mem : ℕ → UInt8) (total : ℕ)

/-- What a pass processes, what then remains of the message, and of the chunk. -/
def Receiver.share (r : Receiver) (ptr size : ℕ) : ℕ × ℤ × ℕ :=
  split (if r.response.isNone then msgSize mem ptr else toSize r.remainingSize) size

def Reception.allocation (p : Reception σ) (ptr : ℕ) : ℕ :=
  if p.receiver.response.isNone then msgSize mem ptr else p.allocated

/-- A pass that copies, because there is a response or it could be allocated, copies from the chunk into
the response, and hands over no less than a header. -/
structure SafePass (p : Reception σ) (ptr size : ℕ) : Prop where
  start : 0 ≤ p.receiver.responseSize
  response : p.receiver.responseSize + (p.receiver.share mem ptr size).1 ≤ p.allocation mem ptr
  chunk : ptr + (p.receiver.share mem ptr size).1 ≤ total
  received : (p.receiver.share mem ptr size).2.1 = 0 →
    5 ≤ toInt (p.receiver.received + (p.receiver.share mem ptr size).1)

/-- The pass comes as far as the copy. -/
def Copies (p : Reception σ) (ptr : ℕ) : Prop :=
  p.receiver.response.isNone = true → H.malloc (msgSize mem ptr) = true

/-- **The passes of a call, all of them safe, up to its return.** -/
inductive SafePasses : Reception σ → ℕ → ℕ → Reception σ → Prop
  | done {p : Reception σ} {ptr size ret : ℕ} {r : Receiver} {s : σ}
      (hsafe : Copies H mem p ptr → SafePass mem total p ptr size)
      (h : p.receiver.pass H mem p.state total ptr size = .done r s ret) :
      SafePasses p ptr size ⟨r, p.allocation mem ptr, s⟩
  | again {p p' : Reception σ} {ptr size ptr' size' : ℕ} {r : Receiver} {s : σ}
      (hsafe : Copies H mem p ptr → SafePass mem total p ptr size)
      (h : p.receiver.pass H mem p.state total ptr size = .again r s ptr' size')
      (hrest : SafePasses ⟨r, p.allocation mem ptr, s⟩ ptr' size' p') :
      SafePasses p ptr size p'

/-- **The calls for the chunks, all of them safe.** -/
inductive SafeFeed : List Chunk → Reception σ → Prop
  | nil {p : Reception σ} : SafeFeed [] p
  | cons {c : Chunk} {cs : List Chunk} {p p' : Reception σ}
      (h : SafePasses H c.mem c.bytes.length p 0 c.bytes.length p') (hrest : SafeFeed cs p') :
      SafeFeed (c :: cs) p

end Safe

/-! ### The messages of the chunks -/

/-- A message in a chunk: its size with the header, what was received of it before, and what the chunk has
from there on. -/
structure Piece where
  size : ℕ
  held : ℕ
  avail : ℕ

/-- The length field of the message that begins here. -/
def lengthField (bs : Bytes) : ℕ := beNat ((bs.drop 1).take 4)

/-- The size of a message, of which `held` bytes were received before, fits 32 bits; and it fits an `int`,
or the chunk does not complete the message, nor go on with it behind its first 2^31 bytes. -/
def FitsInt (n held avail : ℕ) : Prop :=
  n < 2 ^ 32 ∧ (n < 2 ^ 31 ∨ held < 2 ^ 31 ∧ held + avail < n)

section Pieces

variable (malloc : ℕ → Bool)

/-- The messages of a chunk that begins with one, and the size of the message that the chunk leaves
unfinished with what is received of it.  Without memory for a message the rest of the chunk is dropped. -/
def newPieces (bs : Bytes) : List Piece × Option (ℕ × ℕ) :=
  let n := lengthField bs + 5
  if malloc (n % 2 ^ 32) = false then ([⟨n, 0, bs.length⟩], none)
  else if n < bs.length then
    (⟨n, 0, bs.length⟩ :: (newPieces (bs.drop n)).1, (newPieces (bs.drop n)).2)
  else ([⟨n, 0, bs.length⟩], if n = bs.length then none else some (n, bs.length))
termination_by bs.length
decreasing_by
  all_goals
    rw [List.length_drop]
    omega

/-- The messages of a chunk, of which the first may have begun before. -/
def pieces : Option (ℕ × ℕ) → Bytes → List Piece × Option (ℕ × ℕ)
  | none, bs => newPieces malloc bs
  | some (n, held), bs =>
    if n - held < bs.length then
      (⟨n, held, bs.length⟩ :: (newPieces malloc (bs.drop (n - held))).1,
        (newPieces malloc (bs.drop (n - held))).2)
    else ([⟨n, held, bs.length⟩], if n - held = bs.length then none else some (n, held + bs.length))

def messages : Option (ℕ × ℕ) → List Bytes → List Piece
  | _, [] => []
  | place, bs :: rest => (pieces malloc place bs).1 ++ messages (pieces malloc place bs).2 rest

/-- A chunk that starts a message holds its header. -/
def Piece.WholeHeader (p : Piece) : Prop := p.held = 0 → 5 ≤ p.avail

/-- There is no memory for the message, or its size fits. -/
def Piece.Fits (p : Piece) : Prop :=
  p.held = 0 ∧ malloc (p.size % 2 ^ 32) = false ∨ FitsInt p.size p.held p.avail

end Pieces

/-! ### Machine integers -/

lemma toInt_add (h a : ℕ) : toInt (toInt h + a) = toInt (h + a : ℕ) := by
  obtain ⟨k, hk, -, -⟩ := toInt_spec h
  obtain ⟨l, hl, hllo, hlhi⟩ := toInt_spec (toInt h + a)
  obtain ⟨m, hm, hmlo, hmhi⟩ := toInt_spec ((h + a : ℕ) : ℤ)
  push_cast at hm hmlo hmhi ⊢
  omega

lemma toInt_sub {x a : ℕ} (h : a ≤ toSize (toInt x)) (hx : a ≤ x) :
    toInt ((toSize (toInt x) - a : ℕ) : ℤ) = toInt (x - a : ℕ) := by
  obtain ⟨k, hk, -, -⟩ := toInt_spec x
  obtain ⟨l, hl, hllo, hlhi⟩ := toInt_spec ((toSize (toInt x) - a : ℕ) : ℤ)
  obtain ⟨m, hm, hmlo, hmhi⟩ := toInt_spec ((x - a : ℕ) : ℤ)
  have hsize : (toSize (toInt x) : ℤ) = toInt x % 2 ^ 64 :=
    Int.toNat_of_nonneg (Int.emod_nonneg _ (by decide))
  rw [Nat.cast_sub h] at hl hllo hlhi ⊢
  rw [Nat.cast_sub hx] at hm hmlo hmhi ⊢
  rw [hsize] at hl hllo hlhi ⊢
  omega

lemma toInt_ne_zero {x : ℕ} (h : 0 < x) (hx : x < 2 ^ 32) : toInt x ≠ 0 := by
  obtain ⟨k, hk, -, -⟩ := toInt_spec x
  omega

/-- A size that fits an `int` is read from it as it is. -/
lemma toSize_toInt {x : ℕ} (hx : x < 2 ^ 31) : toSize (toInt x) = x := by
  obtain ⟨k, hk, hlo, hhi⟩ := toInt_spec x
  have hsize : (toSize (toInt x) : ℤ) = toInt x % 2 ^ 64 :=
    Int.toNat_of_nonneg (Int.emod_nonneg _ (by decide))
  omega

/-- A size that does not fit an `int` is read as a huge one. -/
lemma le_toSize_toInt {x : ℕ} (hx : 2 ^ 31 ≤ x) (hlt : x < 2 ^ 32) : 2 ^ 32 ≤ toSize (toInt x) := by
  obtain ⟨k, hk, hlo, hhi⟩ := toInt_spec x
  have hsize : (toSize (toInt x) : ℤ) = toInt x % 2 ^ 64 :=
    Int.toNat_of_nonneg (Int.emod_nonneg _ (by decide))
  omega

/-! ### A message that fits -/

section Fits

variable {σ : Type*} {H : Handlers σ} {mem : ℕ → UInt8} {p : Reception σ} {r : Receiver} {s : σ}
  {total ptr n held avail : ℕ}

lemma safePass_of_share (hfits : FitsInt n held avail) (hheld : held < n) (h5 : 5 ≤ n)
    (hsize : p.receiver.responseSize = toInt held) (hrec : p.receiver.received = toInt held)
    (halloc : p.allocation mem ptr = n) (htotal : ptr + avail ≤ total)
    (hshare : p.receiver.share mem ptr avail = split (n - held) avail) :
    SafePass mem total p ptr avail := by
  obtain ⟨hn, hfits⟩ := hfits
  have hexact : toInt held = held := toInt_of_lt (by omega)
  have hend : ∀ a, held + a = n → n < 2 ^ 31 → 5 ≤ toInt (toInt held + a) := by
    intro a ha hsmall
    rw [toInt_add, ha, toInt_of_lt hsmall]
    omega
  unfold split at hshare
  split at hshare
  · next hmore =>
    constructor
    · rw [hsize]
      omega
    · rw [hsize, hshare, halloc]
      dsimp only
      omega
    · rw [hshare]
      dsimp only
      omega
    · intro _
      rw [hshare, hrec]
      exact hend _ (by omega) (by omega)
  · next hless =>
    constructor
    · rw [hsize]
      omega
    · rw [hsize, hshare, halloc]
      dsimp only
      omega
    · rw [hshare]
      dsimp only
      omega
    · intro hzero
      rw [hshare] at hzero ⊢
      dsimp only at hzero
      have hnone : ¬ 0 < n - held - avail := fun hpos => toInt_ne_zero hpos (by omega) hzero
      rw [hrec]
      exact hend _ (by omega) (by omega)

end Fits

/-! ### A message that goes on -/

/-- Of a message of `n` bytes, `held` are here, a header at least. -/
structure Midway (r : Receiver) (n held : ℕ) : Prop where
  response : r.response.isNone = false
  responseSize : r.responseSize = toInt held
  received : r.received = toInt held
  remaining : r.remainingSize = toInt (n - held : ℕ)
  five_le : 5 ≤ held
  held_lt : held < n
  size_lt : n < 2 ^ 32

section Midway

variable {σ : Type*} {H : Handlers σ} {mem : ℕ → UInt8} {p : Reception σ} {r : Receiver} {s : σ}
  {total ptr n held avail : ℕ}

lemma Midway.share (hr : Midway r n held) (mem : ℕ → UInt8) (ptr avail : ℕ) :
    r.share mem ptr avail = split (toSize (toInt (n - held : ℕ))) avail := by
  unfold Receiver.share
  rw [hr.response, hr.remaining, if_neg Bool.false_ne_true]

lemma Midway.allocation (hr : Midway p.receiver n held) (halloc : p.allocated = n) (ptr : ℕ) :
    p.allocation mem ptr = n := by
  unfold Reception.allocation
  rw [hr.response, halloc, if_neg Bool.false_ne_true]

lemma Midway.share_of_fits (hr : Midway r n held) (hfits : FitsInt n held avail) (ptr : ℕ) :
    r.share mem ptr avail = split (n - held) avail := by
  have hlt := hr.held_lt
  obtain ⟨hn, hfits⟩ := hfits
  rw [hr.share]
  by_cases hrest : n - held < 2 ^ 31
  · rw [toSize_toInt hrest]
  · have hhuge := le_toSize_toInt (not_lt.mp hrest) (by omega)
    have hless : avail < n - held := by omega
    unfold split
    rw [if_neg (by omega), if_neg (by omega), toInt_sub (by omega) hless.le]

/-- **A pass over a message that goes on is safe if the message fits.** -/
lemma Midway.safePass (hr : Midway p.receiver n held) (halloc : p.allocated = n)
    (hfits : FitsInt n held avail) (htotal : ptr + avail ≤ total) : SafePass mem total p ptr avail := by
  have h5 := hr.five_le
  have hlt := hr.held_lt
  apply safePass_of_share hfits hlt (by omega) hr.responseSize hr.received (hr.allocation halloc ptr) htotal
  exact hr.share_of_fits hfits ptr

/-- **A pass over a message that goes on is unsafe if the message does not fit.** -/
lemma Midway.fits_of_safePass (hr : Midway p.receiver n held) (halloc : p.allocated = n)
    (hsafe : SafePass mem total p ptr avail) :
    FitsInt n held avail := by
  have hlt := hr.held_lt
  have hn := hr.size_lt
  refine ⟨hn, ?_⟩
  have hshare := hr.share mem ptr avail
  obtain ⟨hstart, hresp, -, hrec⟩ := hsafe
  rw [hr.responseSize] at hstart hresp
  rw [hr.received] at hrec
  rw [hr.allocation halloc] at hresp
  by_contra hbad
  simp only [not_or, not_and, not_lt] at hbad
  obtain ⟨hbig, hover⟩ := hbad
  obtain ⟨k, hk, hklo, hkhi⟩ := toInt_spec held
  have hneg : toInt n < 5 := by
    obtain ⟨l, hl, hllo, hlhi⟩ := toInt_spec n
    omega
  have hheld : held < 2 ^ 31 := by omega
  have hover := hover hheld
  unfold split at hshare
  split at hshare
  · next hmore =>
    rw [hshare] at hresp hrec
    dsimp only at hresp hrec
    by_cases hrest : n - held < 2 ^ 31
    · have hall : held + (n - held) = n := by omega
      have hrec := hrec rfl
      rw [toSize_toInt hrest, toInt_add, hall] at hrec
      omega
    · have hhuge := le_toSize_toInt (not_lt.mp hrest) (by omega)
      omega
  · next hless =>
    rw [hshare] at hresp hrec
    dsimp only at hresp hrec
    have havail : avail = n - held := by omega
    have hzero : toInt ((toSize (toInt (n - held : ℕ)) - avail : ℕ) : ℤ) = 0 := by
      rw [toInt_sub (not_lt.mp hless) havail.le, havail, Nat.sub_self]
      rfl
    have hall : held + avail = n := by omega
    have hrec := hrec hzero
    rw [toInt_add, hall] at hrec
    omega

end Midway

/-! ### How a pass ends -/

/-- The ends of a pass that has `avail` bytes of the chunk for a message of `n` bytes, `held` of which were
there: it goes on behind the message, or returns at its end or inside it. -/
inductive PassEnds {σ : Type*} (n held avail ptr : ℕ) : Pass σ → Prop
  | beyond {r : Receiver} {s : σ} (h : n - held < avail) (hr : Between r) :
    PassEnds n held avail ptr (.again r s (ptr + (n - held)) (avail - (n - held)))
  | whole {r : Receiver} {s : σ} {ret : ℕ} (h : n - held = avail) (hr : Between r) :
    PassEnds n held avail ptr (.done r s ret)
  | inside {r : Receiver} {s : σ} {ret : ℕ} (h : avail < n - held) (hr : Midway r n (held + avail)) :
    PassEnds n held avail ptr (.done r s ret)

section Ends

variable {σ : Type*} {H : Handlers σ} {mem : ℕ → UInt8} {p : Reception σ} {r : Receiver} {s : σ}
  {total ptr n held avail size : ℕ}

lemma copy_ends (hfits : FitsInt n held avail) (hheld : held < n) (h5 : 5 ≤ held + avail)
    (hresp : r.response.isNone = false) (hsize : r.responseSize = toInt held)
    (hrec : r.received = toInt held) :
    PassEnds n held avail ptr (Receiver.copy H mem r s total ptr (split (n - held) avail)) := by
  have hn := hfits.1
  unfold split
  split
  · next hmore =>
    have hrest : 0 < avail - (n - held) := by omega
    simp only [Receiver.copy, if_true, hrest]
    exact .beyond hmore ⟨rfl, rfl, rfl⟩
  · next hless =>
    by_cases hwhole : n - held = avail
    · have hzero : toInt ((n - held - avail : ℕ) : ℤ) = 0 := by
        rw [hwhole, Nat.sub_self]
        rfl
      simp only [Receiver.copy, hzero, if_true, lt_irrefl, if_false]
      exact .whole hwhole ⟨rfl, rfl, rfl⟩
    · have hne : toInt ((n - held - avail : ℕ) : ℤ) ≠ 0 := toInt_ne_zero (by omega) (by omega)
      simp only [Receiver.copy, if_neg hne]
      refine .inside (by omega) ⟨?_, ?_, ?_, ?_, h5, by omega, hn⟩
      · simpa using hresp
      · rw [hsize, toInt_add]
      · rw [hrec, toInt_add]
      · rw [Nat.sub_sub]

lemma pass_some (h : r.response.isNone = false) :
    r.pass H mem s total ptr size = Receiver.copy H mem r s total ptr (r.share mem ptr size) := by
  unfold Receiver.share
  rw [h, if_neg Bool.false_ne_true]
  cases hr : r.response with
  | none =>
    rw [hr] at h
    cases h
  | some bs => simp only [Receiver.pass, hr]

lemma pass_none (h : r.response = none) (hm : H.malloc (msgSize mem ptr) = true) :
    r.pass H mem s total ptr size =
      Receiver.copy H mem { r with response := some [] } s total ptr (r.share mem ptr size) := by
  simp only [Receiver.pass, Receiver.share, h, hm, if_true, Option.isNone_none]

lemma Midway.pass_ends (hr : Midway r n held) (H : Handlers σ) (mem : ℕ → UInt8) (s : σ) (total ptr : ℕ)
    (hfits : FitsInt n held avail) :
    PassEnds n held avail ptr (r.pass H mem s total ptr avail) := by
  have h5 := hr.five_le
  rw [pass_some hr.response, hr.share_of_fits hfits]
  exact copy_ends hfits hr.held_lt (by omega) hr.response hr.responseSize hr.received

/-! ### A message that begins -/

lemma msgSize_eq {bs : Bytes} (hst : StandsAt mem ptr bs) (h5 : 5 ≤ bs.length) :
    msgSize mem ptr = (lengthField bs + 5) % 2 ^ 32 := by
  obtain ⟨pre, rest, hbs, hpre⟩ : ∃ pre rest, bs = pre ++ rest ∧ pre.length = 5 :=
    ⟨bs.take 5, bs.drop 5, (List.take_append_drop 5 bs).symm, by simp [h5]⟩
  rw [hbs] at hst
  have hfive := (standsAt_append.mp hst).1
  rw [StandsAt, hpre] at hfive
  have hfield : lengthField bs = beNat [mem (ptr + 1), mem (ptr + 2), mem (ptr + 3), mem (ptr + 4)] := by
    unfold lengthField
    rw [hbs, ← hfive]
    rfl
  rw [hfield]
  rfl

lemma lengthField_lt (bs : Bytes) : lengthField bs < 2 ^ 32 := by
  have h := beNat_lt ((bs.drop 1).take 4)
  have hle : ((bs.drop 1).take 4).length ≤ 4 := by simp
  have hpow : 256 ^ ((bs.drop 1).take 4).length ≤ 256 ^ 4 := Nat.pow_le_pow_right (by decide) hle
  unfold lengthField
  omega

variable {bs : Bytes}

lemma Between.share (hr : Between r) (avail : ℕ) (hst : StandsAt mem ptr bs) (h5 : 5 ≤ bs.length) :
    r.share mem ptr avail = split ((lengthField bs + 5) % 2 ^ 32) avail := by
  unfold Receiver.share
  rw [hr.response, Option.isNone_none, if_pos rfl, msgSize_eq hst h5]

lemma Between.allocation (hr : Between p.receiver) (hst : StandsAt mem ptr bs) (h5 : 5 ≤ bs.length) :
    p.allocation mem ptr = (lengthField bs + 5) % 2 ^ 32 := by
  unfold Reception.allocation
  rw [hr.response, Option.isNone_none, if_pos rfl, msgSize_eq hst h5]

/-- **A pass over a new message is safe if the message fits.** -/
lemma Between.safePass (hr : Between p.receiver) (hst : StandsAt mem ptr bs) (h5 : 5 ≤ bs.length)
    (hfits : FitsInt (lengthField bs + 5) 0 bs.length) (htotal : ptr + bs.length ≤ total) :
    SafePass mem total p ptr bs.length := by
  have hmod : (lengthField bs + 5) % 2 ^ 32 = lengthField bs + 5 := Nat.mod_eq_of_lt hfits.1
  have halloc := hr.allocation hst h5
  have hshare := hr.share bs.length hst h5
  rw [hmod] at halloc hshare
  exact safePass_of_share hfits (by omega) (by omega) hr.responseSize hr.received halloc htotal hshare

/-- **A pass over a new message is unsafe if the message does not fit.** -/
lemma Between.fits_of_safePass (hr : Between p.receiver) (hst : StandsAt mem ptr bs) (h5 : 5 ≤ bs.length)
    (hsafe : SafePass mem total p ptr bs.length) : FitsInt (lengthField bs + 5) 0 bs.length := by
  have hlen := lengthField_lt bs
  have hshare := hr.share bs.length hst h5
  obtain ⟨-, -, -, hrec⟩ := hsafe
  rw [hr.received, zero_add] at hrec
  unfold split at hshare
  -- a message that the chunk completes has at least the five bytes of a header, and an `int` holds them
  have hwhole : (lengthField bs + 5) % 2 ^ 32 ≤ bs.length →
      5 ≤ toInt ((lengthField bs + 5) % 2 ^ 32 : ℕ) := by
    intro hle
    split at hshare
    · rw [hshare] at hrec
      exact hrec rfl
    · next hless =>
      have heq : (lengthField bs + 5) % 2 ^ 32 = bs.length := by omega
      rw [hshare] at hrec
      dsimp only at hrec
      rw [heq, Nat.sub_self] at hrec
      rw [heq]
      exact hrec rfl
  obtain ⟨k, hk, hlo, hhi⟩ := toInt_spec ((lengthField bs + 5) % 2 ^ 32 : ℕ)
  unfold FitsInt
  by_cases hle : (lengthField bs + 5) % 2 ^ 32 ≤ bs.length
  · have hfive := hwhole hle
    omega
  · omega

lemma Between.pass_ends (hr : Between r) (s : σ) (total : ℕ) (hst : StandsAt mem ptr bs)
    (h5 : 5 ≤ bs.length) (hm : H.malloc (msgSize mem ptr) = true) (hfits : FitsInt (lengthField bs + 5) 0 bs.length) :
    PassEnds (lengthField bs + 5) 0 bs.length ptr (r.pass H mem s total ptr bs.length) := by
  rw [pass_none hr.response hm, hr.share _ hst h5, Nat.mod_eq_of_lt hfits.1]
  exact copy_ends hfits (by omega) (by omega) rfl hr.responseSize hr.received

end Ends

/-! ### The passes of a call -/

/-- The receiver stands between two messages, or inside one, with a response of its size. -/
def Reception.At {σ : Type*} (p : Reception σ) : Option (ℕ × ℕ) → Prop
  | none => Between p.receiver
  | some (n, held) => Midway p.receiver n held ∧ p.allocated = n

section Passes

variable {σ : Type*} {H : Handlers σ} {mem : ℕ → UInt8} {p p' : Reception σ} {total ptr size : ℕ}
  {bs : Bytes}

lemma SafePasses.first (h : SafePasses H mem total p ptr size p') :
    (Copies H mem p ptr → SafePass mem total p ptr size) ∧
      (∀ r s ptr' size', p.receiver.pass H mem p.state total ptr size = .again r s ptr' size' →
        SafePasses H mem total ⟨r, p.allocation mem ptr, s⟩ ptr' size' p') ∧
      ∀ r s ret, p.receiver.pass H mem p.state total ptr size = .done r s ret →
        p' = ⟨r, p.allocation mem ptr, s⟩ := by
  cases h with
  | done hsafe h =>
    refine ⟨hsafe, fun r s ptr' size' hpass => ?_, fun r s ret hpass => ?_⟩
    · rw [h] at hpass
      cases hpass
    · rw [h] at hpass
      cases hpass
      rfl
  | again hsafe h hrest =>
    refine ⟨hsafe, fun r s ptr' size' hpass => ?_, fun r s ret hpass => ?_⟩
    · rw [h] at hpass
      cases hpass
      exact hrest
    · rw [h] at hpass
      cases hpass

lemma Between.pass_refused {r : Receiver} (hr : Between r) (s : σ) (total size : ℕ)
    (hm : H.malloc (msgSize mem ptr) = false) :
    ∃ r' s', r.pass H mem s total ptr size = .done r' s' 0 ∧ Between r' := by
  simp only [Receiver.pass, hr.response, hm, Bool.false_eq_true, if_false]
  exact ⟨_, _, rfl, rfl, hr.responseSize, hr.received⟩

lemma Between.copies_iff (hr : Between p.receiver) :
    Copies H mem p ptr ↔ H.malloc (msgSize mem ptr) = true := by
  unfold Copies
  rw [hr.response]
  simp

section NewPieces

variable {malloc : ℕ → Bool} (hm : malloc ((lengthField bs + 5) % 2 ^ 32) = true)

lemma newPieces_refused (hm : malloc ((lengthField bs + 5) % 2 ^ 32) = false) :
    newPieces malloc bs = ([⟨lengthField bs + 5, 0, bs.length⟩], none) := by
  rw [newPieces, if_pos hm]

include hm

lemma newPieces_more (h : lengthField bs + 5 < bs.length) :
    newPieces malloc bs = (⟨lengthField bs + 5, 0, bs.length⟩ ::
      (newPieces malloc (bs.drop (lengthField bs + 5))).1,
        (newPieces malloc (bs.drop (lengthField bs + 5))).2) := by
  have hne : malloc ((lengthField bs + 5) % 2 ^ 32) ≠ false := ne_of_eq_of_ne hm (by decide)
  rw [newPieces, if_neg hne, if_pos h]

lemma newPieces_last (h : ¬ lengthField bs + 5 < bs.length) :
    newPieces malloc bs = ([⟨lengthField bs + 5, 0, bs.length⟩],
      if lengthField bs + 5 = bs.length then none else some (lengthField bs + 5, bs.length)) := by
  have hne : malloc ((lengthField bs + 5) % 2 ^ 32) ≠ false := ne_of_eq_of_ne hm (by decide)
  rw [newPieces, if_neg hne, if_neg h]

end NewPieces

lemma first_mem_newPieces (malloc : ℕ → Bool) (bs : Bytes) :
    ⟨lengthField bs + 5, 0, bs.length⟩ ∈ (newPieces malloc bs).1 := by
  rw [newPieces]
  split
  · exact List.mem_singleton_self _
  · split
    · exact List.mem_cons_self
    · exact List.mem_singleton_self _

lemma standsAt_drop {n : ℕ} (hst : StandsAt mem ptr bs) (hn : n ≤ bs.length) :
    StandsAt mem (ptr + n) (bs.drop n) := by
  rw [← List.take_append_drop n bs, standsAt_append] at hst
  have htake : (bs.take n).length = n := by
    rw [List.length_take]
    omega
  rw [htake] at hst
  exact hst.2

lemma safePasses_new (hr : Between p.receiver) (hst : StandsAt mem ptr bs) (htotal : ptr + bs.length = total)
    (hwhole : ∀ q ∈ (newPieces H.malloc bs).1, q.WholeHeader)
    (hfits : ∀ q ∈ (newPieces H.malloc bs).1, q.Fits H.malloc) :
    ∃ p', SafePasses H mem total p ptr bs.length p' ∧ p'.At (newPieces H.malloc bs).2 := by
  induction hlen : bs.length using Nat.strongRecOn generalizing bs p ptr with
  | ind len ih =>
    subst hlen
    have h5 : 5 ≤ bs.length := hwhole _ (first_mem_newPieces H.malloc bs) rfl
    have hsize := msgSize_eq hst h5
    by_cases hm : H.malloc ((lengthField bs + 5) % 2 ^ 32) = true
    · have hfit : FitsInt (lengthField bs + 5) 0 bs.length := by
        rcases hfits _ (first_mem_newPieces H.malloc bs) with ⟨-, hnot⟩ | hfit
        · rw [hm] at hnot
          cases hnot
        · exact hfit
      have hm' : H.malloc (msgSize mem ptr) = true := by rwa [hsize]
      have hsafe : SafePass mem total p ptr bs.length := hr.safePass hst h5 hfit htotal.le
      have hends := hr.pass_ends p.state total hst h5 hm' hfit
      have halloc := hr.allocation hst h5
      generalize hpass : p.receiver.pass H mem p.state total ptr bs.length = pass at hends
      cases hends with
      | @beyond r' s' hmore hr' =>
        rw [Nat.sub_zero] at hmore hpass
        rw [newPieces_more hm hmore] at hwhole hfits ⊢
        have hst' := standsAt_drop hst hmore.le
        have hdrop : (bs.drop (lengthField bs + 5)).length = bs.length - (lengthField bs + 5) :=
          List.length_drop
        obtain ⟨p', hpasses, hat⟩ := ih _ (by omega) (p := ⟨r', p.allocation mem ptr, s'⟩) hr' hst' (by omega)
          (fun q hq => hwhole q (List.mem_cons_of_mem _ hq))
          (fun q hq => hfits q (List.mem_cons_of_mem _ hq)) hdrop
        exact ⟨p', .again (fun _ => hsafe) hpass hpasses, hat⟩
      | whole heq hr' =>
        rw [Nat.sub_zero] at heq
        rw [newPieces_last hm (by omega), if_pos heq]
        exact ⟨_, .done (fun _ => hsafe) hpass, hr'⟩
      | inside hless hr' =>
        rw [Nat.sub_zero] at hless
        rw [newPieces_last hm (by omega), if_neg (by omega)]
        rw [Nat.zero_add] at hr'
        rw [Nat.mod_eq_of_lt hfit.1] at halloc
        exact ⟨_, .done (fun _ => hsafe) hpass, hr', halloc⟩
    · have hm' : H.malloc (msgSize mem ptr) = false := by
        rw [hsize]
        exact Bool.eq_false_iff.mpr hm
      rw [newPieces_refused (Bool.eq_false_iff.mpr hm)]
      obtain ⟨r', s', hpass, hr'⟩ :=
        hr.pass_refused p.state total bs.length hm'
      refine ⟨_, .done (fun hc => ?_) hpass, hr'⟩
      rw [hr.copies_iff, hm'] at hc
      cases hc

lemma fits_of_safePasses_new (h : SafePasses H mem total p ptr bs.length p') (hr : Between p.receiver)
    (hst : StandsAt mem ptr bs) (htotal : ptr + bs.length = total)
    (hwhole : ∀ q ∈ (newPieces H.malloc bs).1, q.WholeHeader) :
    (∀ q ∈ (newPieces H.malloc bs).1, q.Fits H.malloc) ∧ p'.At (newPieces H.malloc bs).2 := by
  induction hlen : bs.length using Nat.strongRecOn generalizing bs p ptr with
  | ind len ih =>
    subst hlen
    have h5 : 5 ≤ bs.length := hwhole _ (first_mem_newPieces H.malloc bs) rfl
    have hsize := msgSize_eq hst h5
    obtain ⟨hsafe, hagain, hdone⟩ := h.first
    rw [hr.copies_iff, hsize] at hsafe
    by_cases hm : H.malloc ((lengthField bs + 5) % 2 ^ 32) = true
    · have hfit := hr.fits_of_safePass hst h5 (hsafe hm)
      have hm' : H.malloc (msgSize mem ptr) = true := by rwa [hsize]
      have hends := hr.pass_ends p.state total hst h5 hm' hfit
      have halloc := hr.allocation hst h5
      generalize hpass : p.receiver.pass H mem p.state total ptr bs.length = pass at hends
      cases hends with
      | @beyond r' s' hmore hr' =>
        have hrest := hagain r' s' _ _ hpass
        rw [Nat.sub_zero] at hmore hrest
        rw [newPieces_more hm hmore] at hwhole ⊢
        have hdrop : (bs.drop (lengthField bs + 5)).length = bs.length - (lengthField bs + 5) :=
          List.length_drop
        rw [← hdrop] at hrest
        obtain ⟨hall, hat⟩ := ih _ (by omega) hrest hr' (standsAt_drop hst hmore.le) (by omega)
          (fun q hq => hwhole q (List.mem_cons_of_mem _ hq)) hdrop
        refine ⟨fun q hq => ?_, hat⟩
        rcases List.mem_cons.mp hq with rfl | hq
        · exact .inr hfit
        · exact hall q hq
      | @whole r' s' ret heq hr' =>
        obtain rfl := hdone r' s' ret hpass
        rw [Nat.sub_zero] at heq
        rw [newPieces_last hm (by omega), if_pos heq]
        refine ⟨fun q hq => ?_, hr'⟩
        obtain rfl := List.mem_singleton.mp hq
        exact .inr hfit
      | @inside r' s' ret hless hr' =>
        obtain rfl := hdone r' s' ret hpass
        rw [Nat.sub_zero] at hless
        rw [newPieces_last hm (by omega), if_neg (by omega)]
        rw [Nat.zero_add] at hr'
        rw [Nat.mod_eq_of_lt hfit.1] at halloc
        refine ⟨fun q hq => ?_, hr', halloc⟩
        obtain rfl := List.mem_singleton.mp hq
        exact .inr hfit
    · have hm0 := Bool.eq_false_iff.mpr hm
      have hm' : H.malloc (msgSize mem ptr) = false := by rwa [hsize]
      rw [newPieces_refused hm0]
      obtain ⟨r', s', hpass, hr'⟩ :=
        hr.pass_refused p.state total bs.length hm'
      obtain rfl := hdone r' s' 0 hpass
      refine ⟨fun q hq => ?_, hr'⟩
      obtain rfl := List.mem_singleton.mp hq
      exact .inl ⟨rfl, hm0⟩

lemma Midway.fits_iff {n held avail : ℕ} {r : Receiver} (hr : Midway r n held) (malloc : ℕ → Bool) :
    (⟨n, held, avail⟩ : Piece).Fits malloc ↔ FitsInt n held avail := by
  have h5 := hr.five_le
  constructor
  · rintro (⟨hzero, -⟩ | hfit)
    · have hzero' : held = 0 := hzero
      omega
    · exact hfit
  · exact .inr

section MorePieces

variable (malloc : ℕ → Bool) {n held : ℕ}

lemma pieces_more (h : n - held < bs.length) :
    pieces malloc (some (n, held)) bs = (⟨n, held, bs.length⟩ :: (newPieces malloc (bs.drop (n - held))).1,
      (newPieces malloc (bs.drop (n - held))).2) :=
  if_pos h

lemma pieces_last (h : ¬ n - held < bs.length) :
    pieces malloc (some (n, held)) bs = ([⟨n, held, bs.length⟩],
      if n - held = bs.length then none else some (n, held + bs.length)) :=
  if_neg h

lemma first_mem_pieces : ⟨n, held, bs.length⟩ ∈ (pieces malloc (some (n, held)) bs).1 := by
  by_cases h : n - held < bs.length
  · rw [pieces_more malloc h]
    exact List.mem_cons_self
  · rw [pieces_last malloc h]
    exact List.mem_singleton_self _

end MorePieces

/-- **A chunk whose messages fit is received safely.** -/
lemma safePasses_pieces {place : Option (ℕ × ℕ)} (hp : p.At place) (hst : StandsAt mem 0 bs)
    (hwhole : ∀ q ∈ (pieces H.malloc place bs).1, q.WholeHeader)
    (hfits : ∀ q ∈ (pieces H.malloc place bs).1, q.Fits H.malloc) :
    ∃ p', SafePasses H mem bs.length p 0 bs.length p' ∧ p'.At (pieces H.malloc place bs).2 := by
  cases place with
  | none => exact safePasses_new hp hst (Nat.zero_add _) hwhole hfits
  | some place =>
    obtain ⟨n, held⟩ := place
    obtain ⟨hr, halloc⟩ := hp
    have hfit := (hr.fits_iff H.malloc).mp (hfits _ (first_mem_pieces H.malloc))
    have hsafe : SafePass mem bs.length p 0 bs.length := hr.safePass halloc hfit (Nat.zero_add _).le
    have hends := hr.pass_ends H mem p.state bs.length 0 hfit
    generalize hpass : p.receiver.pass H mem p.state bs.length 0 bs.length = pass at hends
    cases hends with
    | @beyond r' s' hmore hr' =>
      rw [pieces_more H.malloc hmore] at hwhole hfits ⊢
      have hdrop : (bs.drop (n - held)).length = bs.length - (n - held) := List.length_drop
      have hrest : 0 + (n - held) + (bs.drop (n - held)).length = bs.length := by omega
      obtain ⟨p', hpasses, hat⟩ := safePasses_new
        (p := ⟨r', p.allocation mem 0, s'⟩) hr' (standsAt_drop hst hmore.le) hrest
        (fun q hq => hwhole q (List.mem_cons_of_mem _ hq))
        (fun q hq => hfits q (List.mem_cons_of_mem _ hq))
      rw [hdrop] at hpasses
      exact ⟨p', .again (fun _ => hsafe) hpass hpasses, hat⟩
    | whole heq hr' =>
      rw [pieces_last H.malloc (by omega), if_pos heq]
      exact ⟨_, .done (fun _ => hsafe) hpass, hr'⟩
    | inside hless hr' =>
      rw [pieces_last H.malloc (by omega), if_neg (by omega)]
      exact ⟨_, .done (fun _ => hsafe) hpass, hr', hr.allocation halloc 0⟩

/-- **In a chunk that is received safely, the messages fit.** -/
lemma fits_of_safePasses {place : Option (ℕ × ℕ)} (h : SafePasses H mem bs.length p 0 bs.length p')
    (hp : p.At place) (hst : StandsAt mem 0 bs)
    (hwhole : ∀ q ∈ (pieces H.malloc place bs).1, q.WholeHeader) :
    (∀ q ∈ (pieces H.malloc place bs).1, q.Fits H.malloc) ∧ p'.At (pieces H.malloc place bs).2 := by
  cases place with
  | none => exact fits_of_safePasses_new h hp hst (Nat.zero_add _) hwhole
  | some place =>
    obtain ⟨n, held⟩ := place
    obtain ⟨hr, halloc⟩ := hp
    obtain ⟨hsafe, hagain, hdone⟩ := h.first
    have hcopies : Copies H mem p 0 := by
      unfold Copies
      rw [hr.response]
      exact fun hnone => absurd hnone (by decide)
    have hfit := hr.fits_of_safePass halloc (hsafe hcopies)
    have hfirst := (hr.fits_iff H.malloc).mpr hfit
    have hends := hr.pass_ends H mem p.state bs.length 0 hfit
    generalize hpass : p.receiver.pass H mem p.state bs.length 0 bs.length = pass at hends
    cases hends with
    | @beyond r' s' hmore hr' =>
      have hrest := hagain r' s' _ _ hpass
      rw [pieces_more H.malloc hmore] at hwhole ⊢
      have hdrop : (bs.drop (n - held)).length = bs.length - (n - held) := List.length_drop
      rw [← hdrop] at hrest
      obtain ⟨hall, hat⟩ := fits_of_safePasses_new hrest hr' (standsAt_drop hst hmore.le) (by omega)
        (fun q hq => hwhole q (List.mem_cons_of_mem _ hq))
      refine ⟨fun q hq => ?_, hat⟩
      rcases List.mem_cons.mp hq with rfl | hq
      · exact hfirst
      · exact hall q hq
    | @whole r' s' ret heq hr' =>
      obtain rfl := hdone r' s' ret hpass
      rw [pieces_last H.malloc (by omega), if_pos heq]
      refine ⟨fun q hq => ?_, hr'⟩
      obtain rfl := List.mem_singleton.mp hq
      exact hfirst
    | @inside r' s' ret hless hr' =>
      obtain rfl := hdone r' s' ret hpass
      rw [pieces_last H.malloc (by omega), if_neg (by omega)]
      refine ⟨fun q hq => ?_, hr', hr.allocation halloc 0⟩
      obtain rfl := List.mem_singleton.mp hq
      exact hfirst

lemma passes_add {k : ℕ} {r : Receiver} {s : σ} {v : Receiver × σ × ℕ}
    (h : passes H mem total k r s ptr size = some v) (m : ℕ) :
    passes H mem total (k + m) r s ptr size = some v := by
  induction k generalizing r s ptr size with
  | zero => cases h
  | succ k ih =>
    rw [Nat.add_right_comm]
    simp only [passes] at h ⊢
    split at h
    · exact ih h
    · exact h

lemma SafePasses.passes_eq (h : SafePasses H mem total p ptr size p') :
    ∃ k ret, passes H mem total k p.receiver p.state ptr size = some (p'.receiver, p'.state, ret) := by
  induction h with
  | @done p ptr size ret r s hsafe h => exact ⟨1, ret, passes_done h⟩
  | again hsafe h hrest ih =>
    obtain ⟨k, ret, hk⟩ := ih
    exact ⟨k + 1, ret, (passes_again h).trans hk⟩

lemma SafePasses.returns {c : Chunk} (h : SafePasses H c.mem c.bytes.length p 0 c.bytes.length p') :
    ∃ ret, serverResponseCallback H c p.receiver p.state = some (p'.receiver, p'.state, ret) := by
  obtain ⟨k, ret, hk⟩ := h.passes_eq
  refine ⟨ret, ?_⟩
  unfold serverResponseCallback
  cases hcall : passes H c.mem c.bytes.length (c.bytes.length + 2) p.receiver p.state 0 c.bytes.length with
  | none =>
    rw [passes_none hcall k] at hk
    cases hk
  | some v =>
    have hboth := passes_add hk (c.bytes.length + 2)
    rw [Nat.add_comm, passes_add hcall k] at hboth
    exact hboth

end Passes

/-! ### All chunks -/

section Feed

variable {σ : Type*} {H : Handlers σ} {p : Reception σ} {place : Option (ℕ × ℕ)} {cs : List Chunk}

/-- The chunks are received safely exactly if their messages fit, from wherever the receiver stands. -/
lemma safeFeed_at (hp : p.At place)
    (hwhole : ∀ q ∈ messages H.malloc place (cs.map Chunk.bytes), q.WholeHeader) :
    SafeFeed H cs p ↔ ∀ q ∈ messages H.malloc place (cs.map Chunk.bytes), q.Fits H.malloc := by
  induction cs generalizing p place with
  | nil => exact iff_of_true .nil fun q hq => absurd hq List.not_mem_nil
  | cons c cs ih =>
    have hfirst : ∀ q ∈ (pieces H.malloc place c.bytes).1, q.WholeHeader :=
      fun q hq => hwhole q (List.mem_append_left _ hq)
    have hrest : ∀ q ∈ messages H.malloc (pieces H.malloc place c.bytes).2 (cs.map Chunk.bytes),
        q.WholeHeader := fun q hq => hwhole q (List.mem_append_right _ hq)
    constructor
    · intro h q hq
      cases h with
      | cons hpasses hfeed =>
        obtain ⟨hfits, hat⟩ := fits_of_safePasses hpasses hp c.standsAt hfirst
        rcases List.mem_append.mp hq with hq | hq
        · exact hfits q hq
        · exact (ih hat hrest).mp hfeed q hq
    · intro h
      obtain ⟨p', hpasses, hat⟩ := safePasses_pieces hp c.standsAt hfirst
        fun q hq => h q (List.mem_append_left _ hq)
      exact .cons hpasses ((ih hat hrest).mpr fun q hq => h q (List.mem_append_right _ hq))

/-- Chunks that are received safely are received: every call of the callback returns. -/
theorem SafeFeed.returns (h : SafeFeed H cs p) : feed H cs p.receiver p.state ≠ none := by
  induction cs generalizing p with
  | nil => exact Option.some_ne_none _
  | cons c cs ih =>
    cases h with
    | cons hpasses hfeed =>
      obtain ⟨ret, hcall⟩ := hpasses.returns
      rw [feed, hcall]
      exact ih hfeed

/-- **A request receives its chunks safely exactly if their messages fit**, where no chunk starts a message
without its whole header. -/
theorem safeFeed_iff {r : Receiver} (hr : Between r) (allocated : ℕ) (s : σ)
    (hwhole : ∀ q ∈ messages H.malloc none (cs.map Chunk.bytes), q.WholeHeader) :
    SafeFeed H cs ⟨r, allocated, s⟩ ↔
      ∀ q ∈ messages H.malloc none (cs.map Chunk.bytes), q.Fits H.malloc :=
  safeFeed_at hr hwhole

end Feed

/-- A chunk with an empty message and the beginning of one of 2^32 - 1 bytes. -/
def hugeFrame : Chunk where
  bytes := [0, 0, 0, 0, 0, 0, 0xff, 0xff, 0xff, 0xfa, 1]
  after _ := 0

lemma messages_hugeFrame :
    messages (fun _ => true) none ([hugeFrame].map Chunk.bytes) = [⟨5, 0, 11⟩, ⟨4294967295, 0, 6⟩] := by
  have hfirst : lengthField hugeFrame.bytes = 0 := by decide
  have hdrop : hugeFrame.bytes.drop 5 = [0, 0xff, 0xff, 0xff, 0xfa, 1] := by decide
  have hsecond : lengthField [0, 0xff, 0xff, 0xff, 0xfa, 1] = 4294967290 := by decide
  have hmore : newPieces (fun _ => true) hugeFrame.bytes = _ := newPieces_more rfl (by decide)
  have hlast : newPieces (fun _ => true) [0, 0xff, 0xff, 0xff, 0xfa, 1] = _ :=
    newPieces_last rfl (by decide)
  rw [hfirst, hdrop, hlast, hsecond] at hmore
  simp only [List.map_cons, List.map_nil, messages, pieces, hmore, List.append_nil]
  rfl

/-- The huge message is received safely as long as it goes on like this. -/
theorem safeFeed_hugeFrame :
    SafeFeed (recorder (fun _ => true) fun _ => true) [hugeFrame] ⟨Receiver.new, 0, []⟩ := by
  refine (safeFeed_iff ⟨rfl, rfl, rfl⟩ 0 [] ?_).mpr ?_
  · rw [show (recorder (fun _ => true) fun _ => true).malloc = fun _ => true from rfl, messages_hugeFrame]
    simp [Piece.WholeHeader]
  · rw [show (recorder (fun _ => true) fun _ => true).malloc = fun _ => true from rfl, messages_hugeFrame]
    simp [Piece.Fits, FitsInt]

def wrappedFrame : Chunk where
  bytes := [0, 0xff, 0xff, 0xff, 0xfb]
  after _ := 0

/-- **The length 2^32 - 5 makes a message of no bytes**: the loop of the callback never ends, and hands over
nothing again and again. -/
theorem wrapped_length_loops :
    (∀ q ∈ messages (fun _ => true) none ([wrappedFrame].map Chunk.bytes), q.WholeHeader) ∧
      (∀ k, passes (recorder (fun _ => true) fun _ => true) wrappedFrame.mem 5 k Receiver.new [] 0 5 =
        none) ∧
      ¬ SafeFeed (recorder (fun _ => true) fun _ => true) [wrappedFrame] ⟨Receiver.new, 0, []⟩ := by
  have hloop : ∀ k, passes (recorder (fun _ => true) fun _ => true) wrappedFrame.mem 5 k Receiver.new [] 0
      5 = none := fun k => passes_stuck rfl (by decide) (by decide) k rfl
  refine ⟨?_, hloop, fun h => ?_⟩
  · have hfield : lengthField wrappedFrame.bytes = 4294967291 := by decide
    have hlast : newPieces (fun _ => true) wrappedFrame.bytes = _ := newPieces_last rfl (by decide)
    simp only [List.map_cons, List.map_nil, messages, pieces, hlast, List.append_nil]
    intro q hq
    obtain rfl := List.mem_singleton.mp hq
    exact fun _ => le_refl 5
  · cases h with
    | cons hpasses hfeed =>
      obtain ⟨k, ret, hk⟩ := hpasses.passes_eq
      rw [show wrappedFrame.bytes.length = 5 from rfl, hloop k] at hk
      cases hk

end Libaergo
