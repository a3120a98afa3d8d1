import Mathlib.Tactic.IntervalCases
import YuPost.Lib.VarInt
import YuPost.Script.Interpreter
import YuPost.Validation.ConnectBlock

/-! The compact encodings of the UTXO database and of block undo records:
`compressor.cpp`, `compressor.h`, `Coin::Serialize` in `coins.h` and
`TxInUndoFormatter` in `undo.h`. An amount gives up its trailing decimal zeros
to an exponent; a script of one of the six standard forms is stored as its hash
or key alone, any other as the `VARINT` of its length plus six followed by its
bytes. `CPubKey::IsFullyValid` and `CPubKey::Decompress` are parameters. A
stream is a byte list; a read returns what it read and the rest of the stream,
or `none` where the source throws. -/

namespace YuPost.Primitives

open YuPost.Lib YuPost.Script YuPost.Validation

/-- The loop of `CompressAmount` dividing out tens while `e < 9`; `k` counts
the divisions still allowed. -/
def stripTens : (k n e : Nat) → Nat × Nat
  | 0, n, e => (n, e)
  | k + 1, n, e => if n % 10 = 0 then stripTens k (n / 10) (e + 1) else (n, e)

/-- `CompressAmount`, in `uint64_t`. -/
def compressAmount (n : Nat) : Nat :=
  if n = 0 then 0
  else
    let (n, e) := stripTens 9 n 0
    if e < 9 then
      let d := n % 10
      let n := n / 10
      (1 + (n * 9 + d - 1) * 10 + e) % 2 ^ 64
    else (1 + (n - 1) * 10 + 9) % 2 ^ 64

/-- The loop of `DecompressAmount` multiplying by ten `e` times, in `uint64_t`. -/
def timesTen : Nat → Nat → Nat
  | 0, n => n
  | e + 1, n => timesTen e (n * 10 % 2 ^ 64)

/-- `DecompressAmount`. -/
def decompressAmount (x : Nat) : Nat :=
  if x = 0 then 0
  else
    let x := x - 1
    let e := x % 10
    let x := x / 10
    let n := if e < 9 then x / 9 * 10 + (x % 9 + 1) else x + 1
    timesTen e n

theorem stripTens_spec {k n : Nat} (e : Nat) (hn : 0 < n) :
    (stripTens k n e).1 * 10 ^ (stripTens k n e).2 = n * 10 ^ e ∧ 0 < (stripTens k n e).1 ∧
      (stripTens k n e).2 ≤ e + k ∧ ((stripTens k n e).2 < e + k → (stripTens k n e).1 % 10 ≠ 0) := by
  induction k generalizing n e with
  | zero => simp [stripTens, hn]
  | succ k ih =>
    unfold stripTens
    by_cases h10 : n % 10 = 0
    · -- a ten divides out, and the loop goes on from `n / 10`
      rw [if_pos h10]
      obtain ⟨heq, hpos, hle, hlast⟩ := ih (e + 1) (n := n / 10) (by omega)
      refine ⟨?_, hpos, by omega, fun h => hlast (by omega)⟩
      rw [heq, Nat.pow_succ', ← Nat.mul_assoc, Nat.div_mul_cancel (Nat.dvd_of_mod_eq_zero h10)]
    · rw [if_neg h10]
      exact ⟨rfl, hn, by omega, fun _ => h10⟩

theorem timesTen_eq {e n : Nat} (h : n * 10 ^ e < 2 ^ 64) : timesTen e n = n * 10 ^ e := by
  induction e generalizing n with
  | zero => simp [timesTen]
  | succ e ih =>
    have hten : n * 10 < 2 ^ 64 :=
      lt_of_le_of_lt (Nat.mul_le_mul_left n (Nat.le_self_pow (Nat.succ_ne_zero e) 10)) h
    rw [timesTen, Nat.mod_eq_of_lt hten, ih (by rwa [Nat.mul_assoc, ← Nat.pow_succ']),
      Nat.mul_assoc, ← Nat.pow_succ']

theorem decompressAmount_succ (x : Nat) :
    decompressAmount (x + 1) =
      timesTen (x % 10) (if x % 10 < 9 then x / 10 / 9 * 10 + (x / 10 % 9 + 1) else x / 10 + 1) := by
  simp [decompressAmount]

/-- Decompression inverts compression on every amount below `2 ^ 60`, which
covers `MAX_MONEY`: the code is `1 + 10 (9 q + d - 1) + e` for a mantissa
`10 q + d` with last digit `d ≠ 0`, or `1 + 10 (m - 1) + 9` after nine tens. -/
theorem decompressAmount_compressAmount {n : Nat} (hn : n < 2 ^ 60) :
    decompressAmount (compressAmount n) = n := by
  by_cases h0 : n = 0
  · subst h0
    rfl
  obtain ⟨heq, hpos, hle, hlast⟩ := stripTens_spec (k := 9) 0 (Nat.pos_of_ne_zero h0)
  rw [Nat.pow_zero, Nat.mul_one] at heq
  rw [Nat.zero_add] at hle hlast
  unfold compressAmount
  rw [if_neg h0]
  generalize stripTens 9 n 0 = r at heq hpos hle hlast
  obtain ⟨m, e⟩ := r
  simp only at heq hpos hle hlast ⊢
  have hm : m ≤ n := heq ▸ Nat.le_mul_of_pos_right m (Nat.pow_pos (by decide))
  have hback : timesTen e m = n := by rw [timesTen_eq (by omega), heq]
  by_cases he : e < 9
  · -- the mantissa's last digit is kept beside the exponent
    have hd := hlast he
    rw [if_pos he, Nat.mod_eq_of_lt (by omega),
      show 1 + (m / 10 * 9 + m % 10 - 1) * 10 + e = (m / 10 * 9 + m % 10 - 1) * 10 + e + 1 by omega,
      decompressAmount_succ]
    have hexp : ((m / 10 * 9 + m % 10 - 1) * 10 + e) % 10 = e := by omega
    have hmant : ((m / 10 * 9 + m % 10 - 1) * 10 + e) / 10 = m / 10 * 9 + m % 10 - 1 := by omega
    have hdigits : (m / 10 * 9 + m % 10 - 1) / 9 * 10 + ((m / 10 * 9 + m % 10 - 1) % 9 + 1) = m := by
      omega
    rw [hexp, hmant, if_pos he, hdigits, hback]
  · -- nine tens out: the mantissa alone
    have he9 : e = 9 := by omega
    subst he9
    rw [if_neg he, Nat.mod_eq_of_lt (by omega),
      show 1 + (m - 1) * 10 + 9 = (m - 1) * 10 + 9 + 1 by omega, decompressAmount_succ]
    have hexp : ((m - 1) * 10 + 9) % 10 = 9 := by omega
    have hmant : ((m - 1) * 10 + 9) / 10 + 1 = m := by omega
    rw [hexp, if_neg (by decide), hmant, hback]

theorem compressAmount_injOn : Set.InjOn compressAmount {n | n < 2 ^ 60} := by
  intro a ha b hb hab
  rw [← decompressAmount_compressAmount ha, hab, decompressAmount_compressAmount hb]

theorem compressAmount_lt (n : Nat) : compressAmount n < 2 ^ 64 := by
  unfold compressAmount
  split_ifs
  · decide
  · generalize stripTens 9 n 0 = r
    obtain ⟨m, e⟩ := r
    simp only
    split_ifs <;> exact Nat.mod_lt _ (by decide)

theorem ofNat_toBitVec_toNat (x : Int64) : Int64.ofNat x.toBitVec.toNat = x := by
  apply Int64.toBitVec_inj.mp
  simp

theorem ofNat_decompressAmount_compressAmount {x : Int64} (h0 : 0 ≤ x.toInt) (hmax : x.toInt ≤ MAX_MONEY) :
    Int64.ofNat (decompressAmount (compressAmount x.toBitVec.toNat)) = x := by
  have hnat := toNat_toBitVec_of_nonneg h0
  unfold MAX_MONEY COIN at hmax
  rw [decompressAmount_compressAmount (by omega), ofNat_toBitVec_toNat]

/-- `IsToKeyID`: a pay-to-key-hash script, and its key hash. -/
def isToKeyID (script : CScript) : Option (List UInt8) :=
  if script.length = 25 ∧ script.getD 0 0 = OP_DUP ∧ script.getD 1 0 = OP_HASH160 ∧
      script.getD 2 0 = 20 ∧ script.getD 23 0 = OP_EQUALVERIFY ∧ script.getD 24 0 = OP_CHECKSIG then
    some ((script.drop 3).take 20)
  else none

/-- `IsToScriptID`: a pay-to-script-hash script, and its script hash. -/
def isToScriptID (script : CScript) : Option (List UInt8) :=
  if script.length = 23 ∧ script.getD 0 0 = OP_HASH160 ∧ script.getD 1 0 = 20 ∧
      script.getD 22 0 = OP_EQUAL then
    some ((script.drop 2).take 20)
  else none

/-- `IsToPubKey`: a pay-to-key script, and its key, compressed or not. -/
def isToPubKey (isFullyValid : List UInt8 → Bool) (script : CScript) : Option (List UInt8) :=
  if script.length = 35 ∧ script.getD 0 0 = 33 ∧ script.getD 34 0 = OP_CHECKSIG ∧
      (script.getD 1 0 = 0x02 ∨ script.getD 1 0 = 0x03) then
    some ((script.drop 1).take 33)
  else if script.length = 67 ∧ script.getD 0 0 = 65 ∧ script.getD 66 0 = OP_CHECKSIG ∧
      script.getD 1 0 = 0x04 then
    -- a key that is not fully valid could not be compressed
    if isFullyValid ((script.drop 1).take 65) then some ((script.drop 1).take 65) else none
  else none

/-- `CompressScript`: the short form of a script of a special kind. -/
def compressScript (isFullyValid : List UInt8 → Bool) (script : CScript) : Option (List UInt8) :=
  match isToKeyID script with
  | some keyID => some (0x00 :: keyID)
  | none =>
    match isToScriptID script with
    | some scriptID => some (0x01 :: scriptID)
    | none =>
      match isToPubKey isFullyValid script with
      | some pubkey =>
        if pubkey.getD 0 0 = 0x02 ∨ pubkey.getD 0 0 = 0x03 then
          some (pubkey.getD 0 0 :: (pubkey.drop 1).take 32)
        else if pubkey.getD 0 0 = 0x04 then
          -- the x-coordinate and the parity of y
          some ((0x04 ||| (pubkey.getD 64 0 &&& 0x01)) :: (pubkey.drop 1).take 32)
        else none
      | none => none

def getSpecialScriptSize (nSize : Nat) : Nat :=
  if nSize = 0 ∨ nSize = 1 then 20
  else if nSize = 2 ∨ nSize = 3 ∨ nSize = 4 ∨ nSize = 5 then 32
  else 0

/-- `DecompressScript`, `none` where it returns false. `decompress` is
`CPubKey::Decompress` on a compressed key, whose result the source asserts to
be 65 bytes. -/
def decompressScript (decompress : List UInt8 → Option (List UInt8)) (nSize : Nat) (input : List UInt8) :
    Option CScript :=
  match nSize with
  | 0x00 => some ([OP_DUP, OP_HASH160, 20] ++ input.take 20 ++ [OP_EQUALVERIFY, OP_CHECKSIG])
  | 0x01 => some ([OP_HASH160, 20] ++ input.take 20 ++ [OP_EQUAL])
  | 0x02 | 0x03 => some ([33, UInt8.ofNat nSize] ++ input.take 32 ++ [OP_CHECKSIG])
  | 0x04 | 0x05 =>
    (decompress (UInt8.ofNat (nSize - 2) :: input.take 32)).map fun pubkey => [65] ++ pubkey ++ [OP_CHECKSIG]
  | _ => none

def nSpecialScripts : Nat := 6

/-- `ScriptCompression::Ser`. The size is an `unsigned int`. -/
def scriptCompressionSer (isFullyValid : List UInt8 → Bool) (script : CScript) : List UInt8 :=
  match compressScript isFullyValid script with
  | some compr => compr
  | none => writeVarInt ((script.length + nSpecialScripts) % 2 ^ 32) ++ script

/-- `ScriptCompression::Unser` into `script`, which a key that does not
decompress leaves as it was and an overlong size extends by `OP_RETURN`. -/
def scriptCompressionUnser (decompress : List UInt8 → Option (List UInt8)) (script : CScript)
    (s : List UInt8) : Option (CScript × List UInt8) := do
  let (nSize, s) ← readVarInt 32 s
  if nSize < nSpecialScripts then
    let (vch, s) ← readBytes (getSpecialScriptSize nSize) s
    pure ((decompressScript decompress nSize vch).getD script, s)
  else
    let nSize := nSize - nSpecialScripts
    if nSize > MAX_SCRIPT_SIZE then
      -- an overly long script is replaced by a short invalid one
      let (_, s) ← readBytes nSize s
      pure (script ++ [OP_RETURN], s)
    else readBytes nSize s

theorem isToKeyID_eq_some {script keyID : List UInt8} (h : isToKeyID script = some keyID) :
    script = [OP_DUP, OP_HASH160, 20] ++ keyID ++ [OP_EQUALVERIFY, OP_CHECKSIG] ∧ keyID.length = 20 := by
  unfold isToKeyID at h
  split_ifs at h with hframe
  obtain ⟨hlen, h0, h1, h2, h23, h24⟩ := hframe
  cases h
  refine ⟨eq_frame_of_getD (d := 0) (n := 20) hlen ?_ ?_, by simp [hlen]⟩
  · rintro i (hi : i < 3)
    interval_cases i <;> assumption
  · rintro i (hi : i < 2)
    interval_cases i <;> assumption

theorem isToScriptID_eq_some {script scriptID : List UInt8} (h : isToScriptID script = some scriptID) :
    script = [OP_HASH160, 20] ++ scriptID ++ [OP_EQUAL] ∧ scriptID.length = 20 := by
  unfold isToScriptID at h
  split_ifs at h with hframe
  obtain ⟨hlen, h0, h1, h22⟩ := hframe
  cases h
  refine ⟨eq_frame_of_getD (d := 0) (n := 20) hlen ?_ ?_, by simp [hlen]⟩
  · rintro i (hi : i < 2)
    interval_cases i <;> assumption
  · rintro i (hi : i < 1)
    interval_cases i
    assumption

theorem isToPubKey_eq_some {isFullyValid : List UInt8 → Bool} {script pubkey : List UInt8}
    (h : isToPubKey isFullyValid script = some pubkey) :
    (script = [33] ++ pubkey ++ [OP_CHECKSIG] ∧ pubkey.length = 33 ∧
        (pubkey.getD 0 0 = 0x02 ∨ pubkey.getD 0 0 = 0x03)) ∨
      (script = [65] ++ pubkey ++ [OP_CHECKSIG] ∧ pubkey.length = 65 ∧ pubkey.getD 0 0 = 0x04 ∧
        isFullyValid pubkey = true) := by
  unfold isToPubKey at h
  split_ifs at h with hcompressed huncompressed hvalid
  · obtain ⟨hlen, h0, h34, h1⟩ := hcompressed
    cases h
    refine .inl ⟨eq_frame_of_getD (d := 0) (n := 33) hlen ?_ ?_, by simp [hlen], ?_⟩
    · rintro i (hi : i < 1)
      interval_cases i
      assumption
    · rintro i (hi : i < 1)
      interval_cases i
      assumption
    · simpa [List.getD_eq_getElem?_getD] using h1
  · obtain ⟨hlen, h0, h66, h1⟩ := huncompressed
    cases h
    refine .inr ⟨eq_frame_of_getD (d := 0) (n := 65) hlen ?_ ?_, by simp [hlen], ?_, hvalid⟩
    · rintro i (hi : i < 1)
      interval_cases i
      assumption
    · rintro i (hi : i < 1)
      interval_cases i
      assumption
    · simpa [List.getD_eq_getElem?_getD] using h1

theorem compressScript_eq_some {isFullyValid : List UInt8 → Bool} {script compr : List UInt8}
    (h : compressScript isFullyValid script = some compr) :
    (∃ keyID, isToKeyID script = some keyID ∧ compr = 0x00 :: keyID) ∨
      (∃ scriptID, isToScriptID script = some scriptID ∧ compr = 0x01 :: scriptID) ∨
      (∃ pubkey, isToPubKey isFullyValid script = some pubkey ∧
        ((pubkey.getD 0 0 = 0x02 ∨ pubkey.getD 0 0 = 0x03) ∧ compr = pubkey.getD 0 0 :: (pubkey.drop 1).take 32 ∨
          pubkey.getD 0 0 = 0x04 ∧ compr = (0x04 ||| (pubkey.getD 64 0 &&& 0x01)) :: (pubkey.drop 1).take 32)) := by
  unfold compressScript at h
  cases hkey : isToKeyID script with
  | some keyID =>
    rw [hkey, Option.some.injEq] at h
    exact .inl ⟨keyID, rfl, h.symm⟩
  | none =>
    cases hsid : isToScriptID script with
    | some scriptID =>
      rw [hkey, hsid, Option.some.injEq] at h
      exact .inr (.inl ⟨scriptID, rfl, h.symm⟩)
    | none =>
      cases hpk : isToPubKey isFullyValid script with
      | none => simp [hkey, hsid, hpk] at h
      | some pubkey =>
        rw [hkey, hsid, hpk] at h
        simp only at h
        -- the key's first byte decides its short form
        split_ifs at h with hcompressed huncompressed
        · exact .inr (.inr ⟨pubkey, rfl, .inl ⟨hcompressed, (Option.some.inj h).symm⟩⟩)
        · exact .inr (.inr ⟨pubkey, rfl, .inr ⟨huncompressed, (Option.some.inj h).symm⟩⟩)

section Unser

variable {decompress : List UInt8 → Option (List UInt8)}

/-- What is assumed of `CPubKey::Decompress`: from the parity byte and the
x-coordinate of a fully valid uncompressed key it recovers the key. -/
def DecompressRecovers (isFullyValid : List UInt8 → Bool) (decompress : List UInt8 → Option (List UInt8)) :
    Prop :=
  ∀ pubkey : List UInt8, pubkey.length = 65 → pubkey.getD 0 0 = 0x04 → isFullyValid pubkey = true →
    decompress ((0x02 ||| (pubkey.getD 64 0 &&& 0x01)) :: (pubkey.drop 1).take 32) = some pubkey

theorem readVarInt_byte {bits : Nat} {b : UInt8} (hb : b.toNat < 128) (hbits : b.toNat < 2 ^ bits)
    (rest : List UInt8) : readVarInt bits (b :: rest) = some (b.toNat, rest) := by
  have hread := roundTrip_writeVarInt bits b.toNat rest hbits
  rwa [writeVarInt_of_lt hb, UInt8.ofNat_toNat, List.singleton_append] at hread

theorem scriptCompressionUnser_special {b : UInt8} {vch : List UInt8} (hb : b.toNat < nSpecialScripts)
    (hlen : vch.length = getSpecialScriptSize b.toNat) (prior rest : List UInt8) :
    scriptCompressionUnser decompress prior ((b :: vch) ++ rest) =
      some ((decompressScript decompress b.toNat vch).getD prior, rest) := by
  unfold nSpecialScripts at hb
  unfold scriptCompressionUnser
  rw [List.cons_append, readVarInt_byte (by omega) (by omega)]
  simp [nSpecialScripts, hb, readBytes_append hlen]

theorem scriptCompressionUnser_raw {script : CScript} (hlen : script.length ≤ MAX_SCRIPT_SIZE)
    (prior rest : List UInt8) :
    scriptCompressionUnser decompress prior
        (writeVarInt ((script.length + nSpecialScripts) % 2 ^ 32) ++ script ++ rest) = some (script, rest) := by
  unfold MAX_SCRIPT_SIZE at hlen
  have hsize : (script.length + nSpecialScripts) % 2 ^ 32 = script.length + 6 :=
    Nat.mod_eq_of_lt (by unfold nSpecialScripts; omega)
  unfold scriptCompressionUnser
  rw [hsize, List.append_assoc, roundTrip_writeVarInt 32 _ _ (by omega)]
  simp [nSpecialScripts, MAX_SCRIPT_SIZE, readBytes_append, hlen]

theorem scriptCompressionUnser_keyID {keyID : List UInt8} (hlen : keyID.length = 20) (prior rest : List UInt8) :
    scriptCompressionUnser decompress prior ((0x00 :: keyID) ++ rest) =
      some ([OP_DUP, OP_HASH160, 20] ++ keyID ++ [OP_EQUALVERIFY, OP_CHECKSIG], rest) := by
  rw [scriptCompressionUnser_special (by decide) (by rw [hlen]; rfl)]
  simp [decompressScript, List.take_of_length_le (Nat.le_of_eq hlen)]

theorem scriptCompressionUnser_scriptID {scriptID : List UInt8} (hlen : scriptID.length = 20)
    (prior rest : List UInt8) :
    scriptCompressionUnser decompress prior ((0x01 :: scriptID) ++ rest) =
      some ([OP_HASH160, 20] ++ scriptID ++ [OP_EQUAL], rest) := by
  rw [scriptCompressionUnser_special (by decide) (by rw [hlen]; rfl)]
  simp [decompressScript, List.take_of_length_le (Nat.le_of_eq hlen)]

theorem scriptCompressionUnser_compressedKey {pubkey : List UInt8} (hlen : pubkey.length = 33)
    (hhead : pubkey.getD 0 0 = 0x02 ∨ pubkey.getD 0 0 = 0x03) (prior rest : List UInt8) :
    scriptCompressionUnser decompress prior ((pubkey.getD 0 0 :: (pubkey.drop 1).take 32) ++ rest) =
      some ([33] ++ pubkey ++ [OP_CHECKSIG], rest) := by
  obtain ⟨b, x, rfl⟩ : ∃ b x, pubkey = b :: x := List.exists_cons_of_length_eq_add_one hlen
  have hx : x.length = 32 := by simpa using hlen
  simp only [List.getD_cons_zero, List.drop_succ_cons, List.drop_zero,
    List.take_of_length_le (Nat.le_of_eq hx)] at hhead ⊢
  rcases hhead with rfl | rfl
  · rw [scriptCompressionUnser_special (by decide) (by rw [hx]; rfl)]
    simp [decompressScript, List.take_of_length_le (Nat.le_of_eq hx)]
  · rw [scriptCompressionUnser_special (by decide) (by rw [hx]; rfl)]
    simp [decompressScript, List.take_of_length_le (Nat.le_of_eq hx)]

theorem and_one_cases (b : UInt8) : b &&& 1 = 0 ∨ b &&& 1 = 1 := by
  have hbit : (b &&& 1).toNat = b.toNat % 2 := by
    rw [UInt8.toNat_and, UInt8.toNat_one, Nat.and_one_is_mod]
  rcases Nat.mod_two_eq_zero_or_one b.toNat with hpar | hpar
  · exact .inl (UInt8.toNat_inj.mp (by rw [hbit, hpar]; rfl))
  · exact .inr (UInt8.toNat_inj.mp (by rw [hbit, hpar]; rfl))

theorem scriptCompressionUnser_uncompressedKey {isFullyValid : List UInt8 → Bool}
    (hrec : DecompressRecovers isFullyValid decompress) {pubkey : List UInt8} (hlen : pubkey.length = 65)
    (hhead : pubkey.getD 0 0 = 0x04) (hvalid : isFullyValid pubkey = true) (prior rest : List UInt8) :
    scriptCompressionUnser decompress prior
        (((0x04 ||| (pubkey.getD 64 0 &&& 0x01)) :: (pubkey.drop 1).take 32) ++ rest) =
      some ([65] ++ pubkey ++ [OP_CHECKSIG], rest) := by
  have hkey := hrec pubkey hlen hhead hvalid
  have hx : ((pubkey.drop 1).take 32).length = 32 := by simp [hlen]
  generalize (pubkey.drop 1).take 32 = x at hkey hx ⊢
  rcases and_one_cases (pubkey.getD 64 0) with hpar | hpar
  · rw [hpar, show (0x02 ||| 0 : UInt8) = 2 by decide] at hkey
    rw [hpar, show (0x04 ||| 0 : UInt8) = 4 by decide,
      scriptCompressionUnser_special (by decide) (by rw [hx]; rfl)]
    simp [decompressScript, List.take_of_length_le (Nat.le_of_eq hx), hkey]
  · rw [hpar, show (0x02 ||| 1 : UInt8) = 3 by decide] at hkey
    rw [hpar, show (0x04 ||| 1 : UInt8) = 5 by decide,
      scriptCompressionUnser_special (by decide) (by rw [hx]; rfl)]
    simp [decompressScript, List.take_of_length_le (Nat.le_of_eq hx), hkey]

/-- Every script up to `MAX_SCRIPT_SIZE` comes back, whatever script the
reader starts from: the six special forms through their codes, any other
through its size. -/
theorem roundTrip_scriptCompression {isFullyValid : List UInt8 → Bool}
    (hrec : DecompressRecovers isFullyValid decompress) (prior : CScript) :
    RoundTrip (·.length ≤ MAX_SCRIPT_SIZE) (scriptCompressionSer isFullyValid)
      (scriptCompressionUnser decompress prior) := by
  intro script rest hlen
  unfold scriptCompressionSer
  cases hc : compressScript isFullyValid script with
  | none => exact scriptCompressionUnser_raw hlen prior rest
  | some compr =>
    rcases compressScript_eq_some hc with ⟨keyID, hkey, rfl⟩ | ⟨scriptID, hsid, rfl⟩ | ⟨pubkey, hpk, hshort⟩
    · obtain ⟨rfl, hlen20⟩ := isToKeyID_eq_some hkey
      exact scriptCompressionUnser_keyID hlen20 prior rest
    · obtain ⟨rfl, hlen20⟩ := isToScriptID_eq_some hsid
      exact scriptCompressionUnser_scriptID hlen20 prior rest
    · -- the key's length and first byte pick one short form
      rcases isToPubKey_eq_some hpk with ⟨rfl, hlen33, hhead⟩ | ⟨rfl, hlen65, hhead, hvalid⟩
      · rcases hshort with ⟨-, rfl⟩ | ⟨h4, -⟩
        · exact scriptCompressionUnser_compressedKey hlen33 hhead prior rest
        · rcases hhead with h | h <;> rw [h] at h4 <;> exact absurd h4 (by decide)
      · rcases hshort with ⟨h23, -⟩ | ⟨-, rfl⟩
        · rcases h23 with h | h <;> rw [hhead] at h <;> exact absurd h (by decide)
        · exact scriptCompressionUnser_uncompressedKey hrec hlen65 hhead hvalid prior rest

end Unser

/-- The writing half of `TxOutCompression`: the amount as a `uint64_t`
compressed, then the script. -/
def txOutCompressionSer (isFullyValid : List UInt8 → Bool) (out : CTxOut) : List UInt8 :=
  writeVarInt (compressAmount out.nValue.toBitVec.toNat) ++ scriptCompressionSer isFullyValid out.scriptPubKey

/-- The reading half of `TxOutCompression`, into `out`; the amount goes back
to an `int64_t`. -/
def txOutCompressionUnser (decompress : List UInt8 → Option (List UInt8)) (out : CTxOut) (s : List UInt8) :
    Option (CTxOut × List UInt8) := do
  let (v, s) ← readVarInt 64 s
  let (scriptPubKey, s) ← scriptCompressionUnser decompress out.scriptPubKey s
  pure ({ nValue := Int64.ofNat (decompressAmount v), scriptPubKey }, s)

/-- `Coin::Serialize`: the height and both flags in one `VARINT`, then the
output. The height is the coin's 30-bit field. -/
def coinSerialize (isFullyValid : List UInt8 → Bool) (coin : Coin) : List UInt8 :=
  let code := (coin.nHeight % 2 ^ 30).toNat * 4 + (if coin.fCoinBase then 1 else 0) +
    (if coin.fCoinStake then 2 else 0)
  writeVarInt code ++ txOutCompressionSer isFullyValid coin.out

/-- `Coin::Unserialize` into `coin`. -/
def coinUnserialize (decompress : List UInt8 → Option (List UInt8)) (coin : Coin) (s : List UInt8) :
    Option (Coin × List UInt8) := do
  let (code, s) ← readVarInt 32 s
  let (out, s) ← txOutCompressionUnser decompress coin.out s
  pure ({ out, nHeight := (code >>> 2 : Nat), fCoinBase := code &&& 1 != 0,
          fCoinStake := (code >>> 1) &&& 1 != 0 }, s)

/-- `TxInUndoFormatter::Ser`: as a coin, the flags summed the other way round,
with a zero byte after a nonzero height where old records kept a version. -/
def txInUndoSer (isFullyValid : List UInt8 → Bool) (txout : Coin) : List UInt8 :=
  let nHeight := (txout.nHeight % 2 ^ 30).toNat
  writeVarInt (nHeight * 4 + (if txout.fCoinStake then 2 else 0) + (if txout.fCoinBase then 1 else 0)) ++
    ((if nHeight > 0 then [0] else []) ++ txOutCompressionSer isFullyValid txout.out)

/-- `TxInUndoFormatter::Unser` into `txout`, which reads the version as a
`VARINT`. -/
def txInUndoUnser (decompress : List UInt8 → Option (List UInt8)) (txout : Coin) (s : List UInt8) :
    Option (Coin × List UInt8) := do
  let (nCode, s) ← readVarInt 32 s
  let nHeight := nCode >>> 2
  let s ← if nHeight > 0 then (readVarInt 32 s).map Prod.snd else pure s
  let (out, s) ← txOutCompressionUnser decompress txout.out s
  pure ({ out, nHeight := (nHeight : Nat), fCoinBase := nCode &&& 1 != 0,
          fCoinStake := (nCode >>> 1) &&& 1 != 0 }, s)

/-- The outputs the encoding is for: an amount in the money range and a script
the interpreter would run. -/
def TxOutCompressible (out : CTxOut) : Prop :=
  0 ≤ out.nValue.toInt ∧ out.nValue.toInt ≤ MAX_MONEY ∧ out.scriptPubKey.length ≤ MAX_SCRIPT_SIZE

/-- The coins the encodings are for: a height that fits the 30-bit field and
an output as above. -/
def CoinCompressible (coin : Coin) : Prop :=
  0 ≤ coin.nHeight ∧ coin.nHeight < 2 ^ 30 ∧ TxOutCompressible coin.out

theorem unpack_code (h : Nat) (cb cs : Bool) :
    (h * 4 + (if cb then 1 else 0) + (if cs then 2 else 0)) >>> 2 = h ∧
      (h * 4 + (if cb then 1 else 0) + (if cs then 2 else 0) &&& 1 != 0) = cb ∧
      ((h * 4 + (if cb then 1 else 0) + (if cs then 2 else 0)) >>> 1 &&& 1 != 0) = cs := by
  simp only [Nat.shiftRight_eq_div_pow, Nat.and_one_is_mod]
  cases cb <;> cases cs <;> simp <;> omega

section RoundTrips

variable {isFullyValid : List UInt8 → Bool} {decompress : List UInt8 → Option (List UInt8)}

theorem roundTrip_txOutCompression (hrec : DecompressRecovers isFullyValid decompress) (prior : CTxOut) :
    RoundTrip TxOutCompressible (txOutCompressionSer isFullyValid) (txOutCompressionUnser decompress prior) := by
  rintro ⟨nValue, scriptPubKey⟩ rest ⟨h0, hmax, hlen⟩
  unfold txOutCompressionSer txOutCompressionUnser
  rw [List.append_assoc, roundTrip_writeVarInt 64 _ _ (compressAmount_lt _)]
  simp [roundTrip_scriptCompression hrec _ scriptPubKey rest hlen, ofNat_decompressAmount_compressAmount h0 hmax]

theorem roundTrip_coin (hrec : DecompressRecovers isFullyValid decompress) (prior : Coin) :
    RoundTrip CoinCompressible (coinSerialize isFullyValid) (coinUnserialize decompress prior) := by
  rintro ⟨out, nHeight, fCoinBase, fCoinStake⟩ rest ⟨h0, h30, hout⟩
  dsimp only at h0 h30 hout
  obtain ⟨h, rfl⟩ : ∃ h : Nat, nHeight = h := ⟨nHeight.toNat, by omega⟩
  have hfield : ((h : Int) % 2 ^ 30).toNat = h := by omega
  obtain ⟨hheight, hcb, hcs⟩ := unpack_code h fCoinBase fCoinStake
  have hcode : h * 4 + (if fCoinBase then 1 else 0) + (if fCoinStake then 2 else 0) < 2 ^ 32 := by
    split_ifs <;> omega
  unfold coinSerialize coinUnserialize
  simp only [hfield]
  rw [List.append_assoc, roundTrip_writeVarInt 32 _ _ hcode]
  simp only [Option.bind_eq_bind, Option.bind_some]
  rw [roundTrip_txOutCompression hrec prior.out out rest hout]
  simp only [Option.bind_some, hheight, hcb, hcs]
  rfl

theorem roundTrip_txInUndo (hrec : DecompressRecovers isFullyValid decompress) (prior : Coin) :
    RoundTrip CoinCompressible (txInUndoSer isFullyValid) (txInUndoUnser decompress prior) := by
  rintro ⟨out, nHeight, fCoinBase, fCoinStake⟩ rest ⟨h0, h30, hout⟩
  dsimp only at h0 h30 hout
  obtain ⟨h, rfl⟩ : ∃ h : Nat, nHeight = h := ⟨nHeight.toNat, by omega⟩
  have hfield : ((h : Int) % 2 ^ 30).toNat = h := by omega
  -- the same code as a coin's, its two flags added in the other order
  have hswap : h * 4 + (if fCoinStake then 2 else 0) + (if fCoinBase then 1 else 0) =
      h * 4 + (if fCoinBase then 1 else 0) + (if fCoinStake then 2 else 0) := Nat.add_right_comm _ _ _
  obtain ⟨hheight, hcb, hcs⟩ := unpack_code h fCoinBase fCoinStake
  have hcode : h * 4 + (if fCoinBase then 1 else 0) + (if fCoinStake then 2 else 0) < 2 ^ 32 := by
    split_ifs <;> omega
  unfold txInUndoSer txInUndoUnser
  simp only [hfield, hswap]
  rw [List.append_assoc, roundTrip_writeVarInt 32 _ _ hcode]
  simp only [Option.bind_eq_bind, Option.bind_some, hheight, hcb, hcs]
  by_cases hpos : h > 0
  · -- the version byte is read back as a one-byte `VARINT`
    rw [if_pos hpos, if_pos hpos, List.singleton_append, List.cons_append,
      readVarInt_byte (b := 0) (by decide) (by decide)]
    simp only [Option.map_some, Option.bind_some]
    rw [roundTrip_txOutCompression hrec prior.out out rest hout]
    rfl
  · rw [if_neg hpos, if_neg hpos, List.nil_append, Option.pure_def, Option.bind_some,
      roundTrip_txOutCompression hrec prior.out out rest hout]
    rfl

/-- The UTXO database and the undo records give back every coin they store;
on their own, the amount code inverts on the money range and is injective
there, and the script code inverts on every script the interpreter runs. -/
theorem coin_encoding_roundTrip (hrec : DecompressRecovers isFullyValid decompress) :
    (∀ prior, RoundTrip CoinCompressible (coinSerialize isFullyValid) (coinUnserialize decompress prior)) ∧
      (∀ prior, RoundTrip CoinCompressible (txInUndoSer isFullyValid) (txInUndoUnser decompress prior)) ∧
      (∀ n : Nat, (n : Int) ≤ MAX_MONEY → decompressAmount (compressAmount n) = n) ∧
      Set.InjOn compressAmount {n : Nat | (n : Int) ≤ MAX_MONEY} ∧
      (∀ prior, RoundTrip (·.length ≤ MAX_SCRIPT_SIZE) (scriptCompressionSer isFullyValid)
        (scriptCompressionUnser decompress prior)) := by
  have hmoney : ∀ n : Nat, (n : Int) ≤ MAX_MONEY → n < 2 ^ 60 := by
    intro n hn
    unfold MAX_MONEY COIN at hn
    omega
  refine ⟨roundTrip_coin hrec, roundTrip_txInUndo hrec, fun n hn => decompressAmount_compressAmount (hmoney n hn),
    compressAmount_injOn.mono fun n hn => hmoney n hn, roundTrip_scriptCompression hrec⟩

/-- A coinstake coin paying to the generator of secp256k1 as an uncompressed
key comes back out of the database. The generator is fully valid, and its y
is even, so `Decompress` of `0x02` and its x gives it back, as these two
parameters do. -/
theorem coin_encoding_roundTrip_on_uncompressed_key :
    let gx : List UInt8 := [0x79, 0xbe, 0x66, 0x7e, 0xf9, 0xdc, 0xbb, 0xac, 0x55, 0xa0, 0x62, 0x95, 0xce, 0x87, 0x0b, 0x07,
      0x02, 0x9b, 0xfc, 0xdb, 0x2d, 0xce, 0x28, 0xd9, 0x59, 0xf2, 0x81, 0x5b, 0x16, 0xf8, 0x17, 0x98]
    let gy : List UInt8 := [0x48, 0x3a, 0xda, 0x77, 0x26, 0xa3, 0xc4, 0x65, 0x5d, 0xa4, 0xfb, 0xfc, 0x0e, 0x11, 0x08, 0xa8,
      0xfd, 0x17, 0xb4, 0x48, 0xa6, 0x85, 0x54, 0x19, 0x9c, 0x47, 0xd0, 0x8f, 0xfb, 0x10, 0xd4, 0xb8]
    let g : List UInt8 := 4 :: gx ++ gy
    coinUnserialize (fun c => if c = 2 :: gx then some g else none) ⟨⟨0, []⟩, 0, false, false⟩
        (coinSerialize (· == g) ⟨⟨5000000000, [65] ++ g ++ [OP_CHECKSIG]⟩, 700000, false, true⟩ ++ []) =
      some (⟨⟨5000000000, [65] ++ g ++ [OP_CHECKSIG]⟩, 700000, false, true⟩, []) := by
  intro gx gy g
  have hrec : DecompressRecovers (· == g) (fun c => if c = 2 :: gx then some g else none) := by
    intro pubkey _ _ hvalid
    rw [beq_iff_eq] at hvalid
    subst hvalid
    decide
  exact (coin_encoding_roundTrip hrec).1 _ _ [] ⟨by decide, by decide, by decide, by decide, by decide⟩

end RoundTrips

end YuPost.Primitives
