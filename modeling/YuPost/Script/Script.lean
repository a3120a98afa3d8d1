import YuPost.Lib.LittleEndian
import Mathlib.Algebra.BigOperators.Group.List.Basic

/-! Scripts of `script/script.h` and `script/script.cpp` as byte lists: the
opcodes the contract and sender templates use, `CScript::operator<<` for a data
push, `GetScriptOp`, and the OP_SENDER parameter surgery of `ReplaceParam`,
`FindParam`, `Find`, `HasOpSender`, `UpdateSenderSig` and `WithoutSenderSig`.
The loops walk the script with an offset `pc` in place of a `const_iterator`
and stop after `script.size()` operations, enough since every operation takes
at least one byte. -/

namespace YuPost.Script
open YuPost.Lib

/-- `CScript`, a `prevector<28, unsigned char>`: its bytes. -/
abbrev CScript := List UInt8

abbrev valtype := List UInt8

abbrev opcodetype := UInt8

def OP_0 : opcodetype := 0x00
def OP_PUSHDATA1 : opcodetype := 0x4c
def OP_PUSHDATA2 : opcodetype := 0x4d
def OP_PUSHDATA4 : opcodetype := 0x4e
def OP_1NEGATE : opcodetype := 0x4f
def OP_1 : opcodetype := 0x51
def OP_16 : opcodetype := 0x60
def OP_NOP : opcodetype := 0x61
def OP_RETURN : opcodetype := 0x6a
def OP_DUP : opcodetype := 0x76
def OP_EQUAL : opcodetype := 0x87
def OP_EQUALVERIFY : opcodetype := 0x88
def OP_HASH160 : opcodetype := 0xa9
def OP_CHECKSIG : opcodetype := 0xac
def OP_CHECKMULTISIG : opcodetype := 0xae
def OP_CREATE : opcodetype := 0xc1
def OP_CALL : opcodetype := 0xc2
def OP_SPEND : opcodetype := 0xc3
def OP_SENDER : opcodetype := 0xc4
def OP_ADDRESS_TYPE : opcodetype := 0xf2
def OP_ADDRESS : opcodetype := 0xf3
def OP_SCRIPT_SIG : opcodetype := 0xf4
def OP_GAS_PRICE : opcodetype := 0xf5
def OP_VERSION : opcodetype := 0xf6
def OP_GAS_LIMIT : opcodetype := 0xf7
def OP_DATA : opcodetype := 0xf8
def OP_SMALLINTEGER : opcodetype := 0xfa
def OP_PUBKEYS : opcodetype := 0xfb
def OP_PUBKEYHASH : opcodetype := 0xfd
def OP_PUBKEY : opcodetype := 0xfe

/-- `CScript::operator<<(const std::vector<unsigned char>&)`: the bytes appended
for a data push. `WriteLE32` takes a `uint32_t`, so the size is cut to 32 bits. -/
def pushData (b : valtype) : CScript :=
  if b.length < OP_PUSHDATA1.toNat then UInt8.ofNat b.length :: b
  else if b.length ≤ 0xff then OP_PUSHDATA1 :: UInt8.ofNat b.length :: b
  else if b.length ≤ 0xffff then OP_PUSHDATA2 :: (writeLE 2 b.length ++ b)
  else OP_PUSHDATA4 :: (writeLE 4 b.length ++ b)

/-- The size of a push and the number of bytes that hold it: the opcode itself
below `OP_PUSHDATA1`, else the next 1, 2 or 4 bytes (`ReadLE16`, `ReadLE32`). -/
def pushSize (opcode : opcodetype) (rest : List UInt8) : Option (Nat × Nat) :=
  if opcode < OP_PUSHDATA1 then some (opcode.toNat, 0)
  else if opcode = OP_PUSHDATA1 then
    if rest.length < 1 then none else some (readLE (rest.take 1), 1)
  else if opcode = OP_PUSHDATA2 then
    if rest.length < 2 then none else some (readLE (rest.take 2), 2)
  else if rest.length < 4 then none else some (readLE (rest.take 4), 4)

/-- `GetScriptOp` on the bytes from `pc` to the end: the opcode, the pushed data
and the number of bytes the operation takes; `none` where it returns false. -/
def getScriptOp : List UInt8 → Option (opcodetype × valtype × Nat)
  | [] => none
  | opcode :: rest =>
    if opcode ≤ OP_PUSHDATA4 then
      match pushSize opcode rest with
      | none => none
      | some (nSize, n) =>
        if rest.length - n < nSize then none
        else some (opcode, (rest.drop n).take nSize, 1 + n + nSize)
    else some (opcode, [], 1)

theorem pushSize_congr {opcode : opcodetype} {rest rest' : List UInt8} {nSize n : Nat}
    (h : pushSize opcode rest = some (nSize, n)) (htake : rest'.take n = rest.take n)
    (hlen : n ≤ rest'.length) : pushSize opcode rest' = some (nSize, n) := by
  unfold pushSize at h ⊢
  split_ifs at h ⊢ <;> cases h <;> first | rfl | omega | rw [htake]

theorem pushSize_le {opcode : opcodetype} {rest : List UInt8} {nSize n : Nat}
    (h : pushSize opcode rest = some (nSize, n)) : n ≤ rest.length := by
  unfold pushSize at h
  split_ifs at h <;> cases h <;> omega

theorem getScriptOp_consumed {s : List UInt8} {opcode : opcodetype} {d : valtype} {n : Nat}
    (h : getScriptOp s = some (opcode, d, n)) : 1 ≤ n ∧ n ≤ s.length := by
  match s, h with
  | b :: rest, h =>
    simp only [getScriptOp] at h
    split_ifs at h
    · split at h
      · cases h
      · rename_i nSize m hsize
        have hm := pushSize_le hsize
        split_ifs at h with hdata
        cases h
        simp only [List.length_cons]
        omega
    · cases h
      simp

theorem getScriptOp_congr {s s' : List UInt8} {opcode : opcodetype} {d : valtype} {n : Nat}
    (h : getScriptOp s = some (opcode, d, n)) (htake : s'.take n = s.take n)
    (hlen : n ≤ s'.length) : getScriptOp s' = some (opcode, d, n) := by
  obtain ⟨hn, hns⟩ := getScriptOp_consumed h
  match s, s', h, htake, hlen with
  | _, [], _, _, hlen => simp at hlen; omega
  | b :: rest, b' :: rest', h, htake, hlen =>
    obtain ⟨rfl, htail⟩ : b' = b ∧ rest'.take (n - 1) = rest.take (n - 1) := by
      obtain ⟨k, rfl⟩ : ∃ k, n = k + 1 := ⟨n - 1, by omega⟩
      simpa using htake
    simp only [getScriptOp] at h ⊢
    split_ifs at h ⊢ with hpush
    · split at h
      · cases h
      · rename_i nSize m hsize
        split_ifs at h with hdata
        cases h
        have hm := pushSize_le hsize
        simp only [List.length_cons] at hlen
        rw [show 1 + m + nSize - 1 = m + nSize by omega] at htail
        have hprefix : rest'.take m = rest.take m := by
          simpa [List.take_take, show min m (m + nSize) = m by omega] using
            congrArg (List.take m) htail
        have hdata' : (rest'.drop m).take nSize = (rest.drop m).take nSize := by
          rw [List.take_drop, List.take_drop, htail]
        simp only [pushSize_congr hsize hprefix (by omega)]
        rw [if_neg (by omega), hdata']
    · exact h

theorem getScriptOp_append {s : List UInt8} {opcode : opcodetype} {d : valtype} {n : Nat}
    (h : getScriptOp s = some (opcode, d, n)) (t : List UInt8) :
    getScriptOp (s ++ t) = some (opcode, d, n) := by
  have hn := (getScriptOp_consumed h).2
  exact getScriptOp_congr h (List.take_append_of_le_length hn) (by simp; omega)

theorem getScriptOp_take {s : List UInt8} {opcode : opcodetype} {d : valtype} {n : Nat}
    (h : getScriptOp s = some (opcode, d, n)) : getScriptOp (s.take n) = some (opcode, d, n) := by
  have hn := (getScriptOp_consumed h).2
  have htake : (s.take n).take n = s.take n := by rw [List.take_take, Nat.min_self]
  exact getScriptOp_congr h htake (by rw [List.length_take]; omega)

theorem getScriptOp_push {opcode : opcodetype} (hop : opcode ≤ OP_PUSHDATA4) (hdr b : List UInt8)
    (hsize : pushSize opcode (hdr ++ b) = some (b.length, hdr.length)) :
    getScriptOp (opcode :: (hdr ++ b)) = some (opcode, b, (opcode :: (hdr ++ b)).length) := by
  simp only [getScriptOp, if_pos hop, hsize, List.length_append, Nat.add_sub_cancel_left,
    Nat.lt_irrefl, if_false, List.drop_left, List.take_length, List.length_cons,
    Option.some.injEq, Prod.mk.injEq, true_and]
  omega

theorem getScriptOp_pushData {b : valtype} (hb : b.length < 2 ^ 32) :
    ∃ opcode ≤ OP_PUSHDATA4, getScriptOp (pushData b) = some (opcode, b, (pushData b).length) := by
  unfold pushData
  split_ifs with h1 h2 h3
  · have hlen : (UInt8.ofNat b.length).toNat = b.length :=
      UInt8.toNat_ofNat_of_lt' (by simp [OP_PUSHDATA1] at h1; simp [UInt8.size]; omega)
    have hop : UInt8.ofNat b.length ≤ OP_PUSHDATA4 := by
      rw [UInt8.le_iff_toNat_le, hlen]
      simp [OP_PUSHDATA1] at h1
      simp [OP_PUSHDATA4]
      omega
    refine ⟨UInt8.ofNat b.length, hop, getScriptOp_push hop [] b ?_⟩
    rw [pushSize, if_pos (by rw [UInt8.lt_iff_toNat_lt, hlen]; exact h1), hlen]
    rfl
  · have hlen : readLE [UInt8.ofNat b.length] = b.length := by
      simp [UInt8.toNat_ofNat']
      omega
    refine ⟨OP_PUSHDATA1, by decide, getScriptOp_push (by decide) [UInt8.ofNat b.length] b ?_⟩
    rw [pushSize, if_neg (by decide), if_pos rfl, if_neg (by simp only [List.length_append, List.length_singleton]; omega)]
    simp [hlen]
  · have hlen : readLE (writeLE 2 b.length) = b.length := by
      rw [readLE_writeLE]
      exact Nat.mod_eq_of_lt (by omega)
    refine ⟨OP_PUSHDATA2, by decide, getScriptOp_push (by decide) (writeLE 2 b.length) b ?_⟩
    rw [pushSize, if_neg (by decide), if_neg (by decide), if_pos rfl,
      if_neg (by simp only [List.length_append, length_writeLE]; omega)]
    simp [List.take_left', hlen]
  · have hlen : readLE (writeLE 4 b.length) = b.length := by
      rw [readLE_writeLE]
      exact Nat.mod_eq_of_lt (by omega)
    refine ⟨OP_PUSHDATA4, by decide, getScriptOp_push (by decide) (writeLE 4 b.length) b ?_⟩
    rw [pushSize, if_neg (by decide), if_neg (by decide), if_neg (by decide),
      if_neg (by simp only [List.length_append, length_writeLE]; omega)]
    simp [List.take_left', hlen]

/-- The body of `CScript::ReplaceParam` once `findOp` is read: the push of
`vchParam` spliced over the operation `posBefore` places before it. -/
def replaceAt (script : CScript) (opcodes : List Nat) (posBefore : Nat) (vchParam : valtype) :
    Option CScript :=
  let size := opcodes.length
  if size > posBefore + 1 then
    -- for `posBefore = 0` the source reads `opcodes[size]`, past the end
    match opcodes[size - 1 - posBefore]?, opcodes[size - posBefore]? with
    | some firstPart, some secondPart =>
      some (script.take firstPart ++ pushData vchParam ++ script.drop secondPart)
    | _, _ => none
  else none

/-- The loop of `CScript::ReplaceParam`. `opcodes` holds the offsets where the
operations read so far start, `begin()` first, and `pc` the offset reached; the
test `pc != end()` is the `[]` case of `getScriptOp`. -/
def replaceParamLoop (script : CScript) (findOp : opcodetype) (posBefore : Nat)
    (vchParam : valtype) : Nat → Nat → List Nat → Option CScript
  | 0, _, _ => none
  | fuel + 1, pc, opcodes =>
    match getScriptOp (script.drop pc) with
    | none => none
    | some (opcode, _, n) =>
      if opcode = findOp then replaceAt script opcodes posBefore vchParam
      else replaceParamLoop script findOp posBefore vchParam fuel (pc + n) (opcodes ++ [pc + n])

def replaceParam (script : CScript) (findOp : opcodetype) (posBefore : Int)
    (vchParam : valtype) : Option CScript :=
  if posBefore < 0 then none
  else replaceParamLoop script findOp posBefore.toNat vchParam (script.length + 1) 0 [0]

/-- The loop of `CScript::FindParam` on the bytes from `pc` on; `opcodes` keeps
the data of each operation read, the one matched included. -/
def findParamLoop (findOp : opcodetype) (posBefore : Nat) :
    Nat → List UInt8 → List valtype → Option valtype
  | 0, _, _ => none
  | fuel + 1, rest, opcodes =>
    match getScriptOp rest with
    | none => none
    | some (opcode, tmpParam, n) =>
      let opcodes := opcodes ++ [tmpParam]
      if opcode = findOp then
        if opcodes.length > posBefore + 1 then opcodes[opcodes.length - 1 - posBefore]?
        else none
      else findParamLoop findOp posBefore fuel (rest.drop n) opcodes

def findParam (script : CScript) (findOp : opcodetype) (posBefore : Int) : Option valtype :=
  if posBefore < 0 then none
  else findParamLoop findOp posBefore.toNat (script.length + 1) script []

/-- The loop of `CScript::Find`: the number of operations `op` read before the
script ends or fails to parse. -/
def findLoop (op : opcodetype) : Nat → List UInt8 → Nat
  | 0, _ => 0
  | fuel + 1, rest =>
    match getScriptOp rest with
    | none => 0
    | some (opcode, _, n) => (if opcode = op then 1 else 0) + findLoop op fuel (rest.drop n)

def find (script : CScript) (op : opcodetype) : Nat :=
  findLoop op (script.length + 1) script

def hasOpSender (script : CScript) : Bool :=
  find script OP_SENDER == 1

def updateSenderSig (script : CScript) (scriptSig : valtype) : Option CScript :=
  replaceParam script OP_SENDER 1 scriptSig

def withoutSenderSig (script : CScript) : CScript :=
  (updateSenderSig script []).getD script

/-! ### The operations before an opcode

`splitAtOp` is the reading the three loops above share: the byte chunks of the
operations before the first `findOp`, the chunk of that operation and the bytes
after it. Each loop is proved equal to a function of this split. -/

def splitAtOp (findOp : opcodetype) : Nat → List UInt8 → Option (List CScript × CScript × CScript)
  | 0, _ => none
  | fuel + 1, s =>
    match getScriptOp s with
    | none => none
    | some (opcode, _, n) =>
      if opcode = findOp then some ([], s.take n, s.drop n)
      else (splitAtOp findOp fuel (s.drop n)).map fun (pre, c, rest) => (s.take n :: pre, c, rest)

/-- `s` reads as the operations `pre`, none of them `findOp`, then the operation
`c`, which is `findOp`, then the bytes `rest`. -/
structure SplitAt (findOp : opcodetype) (s : List UInt8) (pre : List CScript) (c rest : CScript) :
    Prop where
  eq : s = pre.flatten ++ c ++ rest
  pre_ops : ∀ x ∈ pre, ∃ opcode d, opcode ≠ findOp ∧ getScriptOp x = some (opcode, d, x.length)
  found : ∃ d, getScriptOp c = some (findOp, d, c.length)

theorem splitAtOp_sound {findOp : opcodetype} {fuel : Nat} {s : List UInt8}
    {pre : List CScript} {c rest : CScript} (h : splitAtOp findOp fuel s = some (pre, c, rest)) :
    SplitAt findOp s pre c rest := by
  induction fuel generalizing s pre with
  | zero => cases h
  | succ fuel ih =>
    simp only [splitAtOp] at h
    split at h
    · cases h
    · rename_i opcode d n hop
      have hn := (getScriptOp_consumed hop).2
      have hchunk : getScriptOp (s.take n) = some (opcode, d, (s.take n).length) := by
        rw [List.length_take, Nat.min_eq_left hn]
        exact getScriptOp_take hop
      split_ifs at h with hfound
      · cases h
        exact ⟨by simp, by simp, ⟨d, hfound ▸ hchunk⟩⟩
      · obtain ⟨⟨pre', c', rest'⟩, hsplit, heq⟩ := Option.map_eq_some_iff.mp h
        cases heq
        have hrest := ih hsplit
        refine ⟨?_, ?_, hrest.found⟩
        · conv_lhs => rw [← List.take_append_drop n s, hrest.eq]
          simp
        · intro x hx
          rcases List.mem_cons.mp hx with rfl | hx
          · exact ⟨opcode, d, hfound, hchunk⟩
          · exact hrest.pre_ops x hx

theorem splitAtOp_complete {findOp : opcodetype} {s : List UInt8} {pre : List CScript}
    {c rest : CScript} (h : SplitAt findOp s pre c rest) {fuel : Nat} (hfuel : pre.length < fuel) :
    splitAtOp findOp fuel s = some (pre, c, rest) := by
  induction pre generalizing s fuel with
  | nil =>
    obtain ⟨d, hc⟩ := h.found
    obtain ⟨fuel, rfl⟩ : ∃ k, fuel = k + 1 := ⟨fuel - 1, by simp at hfuel; omega⟩
    have heq : s = c ++ rest := by simpa using h.eq
    subst heq
    simp [splitAtOp, getScriptOp_append hc]
  | cons x pre ih =>
    obtain ⟨opcode, d, hne, hx⟩ := h.pre_ops x (List.mem_cons_self ..)
    obtain ⟨fuel, rfl⟩ : ∃ k, fuel = k + 1 := ⟨fuel - 1, by simp at hfuel; omega⟩
    have heq : s = x ++ (pre.flatten ++ c ++ rest) := by simpa using h.eq
    have hrest : SplitAt findOp (pre.flatten ++ c ++ rest) pre c rest :=
      ⟨rfl, fun y hy => h.pre_ops y (List.mem_cons_of_mem _ hy), h.found⟩
    subst heq
    have hsplit := ih hrest (by simpa using hfuel)
    simp only [List.append_assoc] at hsplit
    simp [splitAtOp, getScriptOp_append hx, hne, hsplit]

theorem SplitAt.length_le {findOp : opcodetype} {s : List UInt8} {pre : List CScript}
    {c rest : CScript} (h : SplitAt findOp s pre c rest) : pre.length ≤ pre.flatten.length := by
  have hchunks : ∀ n ∈ pre.map List.length, 1 ≤ n := by
    simp only [List.mem_map]
    rintro _ ⟨x, hx, rfl⟩
    obtain ⟨_, _, _, hop⟩ := h.pre_ops x hx
    exact (getScriptOp_consumed hop).1
  have hle := List.length_le_sum_of_one_le _ hchunks
  rwa [List.length_map, ← List.length_flatten] at hle

theorem SplitAt.length_lt {findOp : opcodetype} {s : List UInt8} {pre : List CScript}
    {c rest : CScript} (h : SplitAt findOp s pre c rest) : pre.length < s.length + 1 := by
  have hle := h.length_le
  rw [h.eq]
  simp only [List.length_append]
  omega

/-- The offsets `ReplaceParam` has recorded after reading the operations `pre`:
where each starts, then where the last one ends. -/
def opStarts (pre : List CScript) : List Nat :=
  (List.range (pre.length + 1)).map fun j => (pre.take j).flatten.length

@[simp] theorem length_opStarts (pre : List CScript) : (opStarts pre).length = pre.length + 1 := by
  simp [opStarts]

theorem getElem?_opStarts {pre : List CScript} {j : Nat} (hj : j ≤ pre.length) :
    (opStarts pre)[j]? = some (pre.take j).flatten.length := by
  simp [opStarts, show j < pre.length + 1 by omega]

theorem opStarts_concat (pre : List CScript) (x : CScript) :
    opStarts (pre ++ [x]) = opStarts pre ++ [(pre ++ [x]).flatten.length] := by
  simp only [opStarts, List.length_append, List.length_singleton]
  rw [List.range_succ (n := pre.length + 1), List.map_append]
  congr 1
  · apply List.map_congr_left
    intro j hj
    rw [List.take_append_of_le_length (by simp at hj; omega)]
  · simp

theorem flatten_set {l : List CScript} {j : Nat} (hj : j < l.length) (y : CScript) :
    (l.set j y).flatten = (l.take j).flatten ++ y ++ (l.drop (j + 1)).flatten := by
  rw [List.set_eq_take_cons_drop _ hj]
  simp

/-- What `ReplaceParam` makes of a split: the operation `posBefore` places
before `findOp` replaced by a push of `vchParam`. -/
def replaceOp (pre : List CScript) (c rest : CScript) (posBefore : Nat) (vchParam : valtype) :
    Option CScript :=
  if 0 < posBefore ∧ posBefore < pre.length then
    some ((pre.set (pre.length - posBefore) (pushData vchParam)).flatten ++ c ++ rest)
  else none

theorem replaceAt_opStarts {script : CScript} {pre : List CScript} {c rest : CScript}
    (hs : script = pre.flatten ++ (c ++ rest)) (posBefore : Nat) (vchParam : valtype) :
    replaceAt script (opStarts pre) posBefore vchParam = replaceOp pre c rest posBefore vchParam := by
  unfold replaceAt replaceOp
  simp only [length_opStarts, Nat.add_sub_cancel, gt_iff_lt, Nat.add_lt_add_iff_right]
  by_cases hlt : posBefore < pre.length
  · by_cases hpos : 0 < posBefore
    · set j := pre.length - posBefore with hj
      have hsplit (i : Nat) :
          script = (pre.take i).flatten ++ ((pre.drop i).flatten ++ (c ++ rest)) := by
        rw [hs]
        conv_lhs => rw [← List.take_append_drop i pre]
        simp only [List.flatten_append, List.append_assoc]
      have htake : script.take (pre.take j).flatten.length = (pre.take j).flatten := by
        rw [hsplit j, List.take_left]
      have hdrop : script.drop (pre.take (j + 1)).flatten.length =
          (pre.drop (j + 1)).flatten ++ (c ++ rest) := by
        rw [hsplit (j + 1), List.drop_left]
      rw [getElem?_opStarts (by omega), show pre.length + 1 - posBefore = j + 1 by omega,
        getElem?_opStarts (by omega), if_pos hlt, if_pos ⟨hpos, hlt⟩, flatten_set (by omega)]
      simp only [htake, hdrop, List.append_assoc]
    · rw [show posBefore = 0 by omega]
      simp
  · simp [hlt]

theorem replaceParamLoop_eq (script : CScript) (findOp : opcodetype) (posBefore : Nat)
    (vchParam : valtype) (fuel : Nat) (pre0 : List CScript) (t : List UInt8)
    (hs : script = pre0.flatten ++ t) :
    replaceParamLoop script findOp posBefore vchParam fuel pre0.flatten.length (opStarts pre0) =
      (splitAtOp findOp fuel t).bind fun (pre, c, rest) =>
        replaceOp (pre0 ++ pre) c rest posBefore vchParam := by
  induction fuel generalizing pre0 t with
  | zero => rfl
  | succ fuel ih =>
    have hdrop : script.drop pre0.flatten.length = t := by simp [hs]
    simp only [replaceParamLoop, splitAtOp, hdrop]
    cases hop : getScriptOp t with
    | none => rfl
    | some r =>
      obtain ⟨opcode, d, n⟩ := r
      have hn := (getScriptOp_consumed hop).2
      dsimp only
      split_ifs with hfound
      · rw [Option.bind_some, List.append_nil]
        exact replaceAt_opStarts (by rw [hs, List.take_append_drop]) posBefore vchParam
      · -- the operation read is one more of `pre0`
        have hpc : pre0.flatten.length + n = (pre0 ++ [t.take n]).flatten.length := by
          simp [Nat.min_eq_left hn]
        rw [hpc, ← opStarts_concat, ih (pre0 ++ [t.take n]) (t.drop n)
          (by simp [hs, List.take_append_drop])]
        cases splitAtOp findOp fuel (t.drop n) with
        | none => rfl
        | some r => simp

theorem replaceParam_eq (script : CScript) (findOp : opcodetype) (posBefore : Int)
    (vchParam : valtype) :
    replaceParam script findOp posBefore vchParam =
      if posBefore < 0 then none
      else (splitAtOp findOp (script.length + 1) script).bind fun (pre, c, rest) =>
        replaceOp pre c rest posBefore.toNat vchParam := by
  unfold replaceParam
  split_ifs
  · rfl
  · simpa [opStarts] using replaceParamLoop_eq script findOp posBefore.toNat vchParam
      (script.length + 1) [] script rfl

/-- The data an operation chunk pushes. -/
def opData (x : CScript) : valtype :=
  match getScriptOp x with
  | some (_, d, _) => d
  | none => []

/-- What `FindParam` reads from a split: the data of the operation `posBefore`
places before `findOp`. -/
def paramBefore (pre : List CScript) (c : CScript) (posBefore : Nat) : Option valtype :=
  if posBefore < pre.length then ((pre ++ [c]).map opData)[pre.length - posBefore]? else none

theorem findParamLoop_eq (findOp : opcodetype) (posBefore fuel : Nat) (pre0 : List CScript)
    (t : List UInt8) :
    findParamLoop findOp posBefore fuel t (pre0.map opData) =
      (splitAtOp findOp fuel t).bind fun (pre, c, _) => paramBefore (pre0 ++ pre) c posBefore := by
  induction fuel generalizing pre0 t with
  | zero => rfl
  | succ fuel ih =>
    simp only [findParamLoop, splitAtOp]
    cases hop : getScriptOp t with
    | none => rfl
    | some r =>
      obtain ⟨opcode, d, n⟩ := r
      have hd : opData (t.take n) = d := by simp [opData, getScriptOp_take hop]
      dsimp only
      by_cases hfound : opcode = findOp
      · rw [if_pos hfound, if_pos hfound, Option.bind_some, List.append_nil]
        simp only [paramBefore, List.map_append, List.map_singleton, hd, List.length_append,
          List.length_map, List.length_singleton, Nat.add_sub_cancel]
        by_cases hlt : posBefore < pre0.length
        · rw [if_pos (by omega), if_pos hlt]
        · rw [if_neg (by omega), if_neg hlt]
      · rw [if_neg hfound, if_neg hfound, show pre0.map opData ++ [d] = (pre0 ++ [t.take n]).map opData
          by simp [hd], ih]
        cases splitAtOp findOp fuel (t.drop n) with
        | none => rfl
        | some r => simp

theorem findParam_eq (script : CScript) (findOp : opcodetype) (posBefore : Int) :
    findParam script findOp posBefore =
      if posBefore < 0 then none
      else (splitAtOp findOp (script.length + 1) script).bind fun (pre, c, _) =>
        paramBefore pre c posBefore.toNat := by
  unfold findParam
  split_ifs
  · rfl
  · simpa using findParamLoop_eq findOp posBefore.toNat (script.length + 1) [] script

theorem findLoop_fuel {op : opcodetype} {t : List UInt8} {fuel fuel' : Nat}
    (h : t.length < fuel) (h' : t.length < fuel') : findLoop op fuel t = findLoop op fuel' t := by
  induction fuel generalizing fuel' t with
  | zero => omega
  | succ fuel ih =>
    obtain ⟨fuel', rfl⟩ : ∃ k, fuel' = k + 1 := ⟨fuel' - 1, by omega⟩
    simp only [findLoop]
    cases hop : getScriptOp t with
    | none => rfl
    | some r =>
      obtain ⟨opcode, d, n⟩ := r
      have hn := getScriptOp_consumed hop
      have hrest : (t.drop n).length < fuel := by simp; omega
      have hrest' : (t.drop n).length < fuel' := by simp; omega
      dsimp only
      rw [ih hrest hrest']

theorem findLoop_flatten {op : opcodetype} {pre : List CScript}
    (hpre : ∀ x ∈ pre, ∃ opcode d, opcode ≠ op ∧ getScriptOp x = some (opcode, d, x.length))
    (t : List UInt8) (fuel : Nat) : findLoop op (fuel + pre.length) (pre.flatten ++ t) = findLoop op fuel t := by
  induction pre generalizing fuel with
  | nil => rfl
  | cons x pre ih =>
    obtain ⟨opcode, d, hne, hx⟩ := hpre x (List.mem_cons_self ..)
    rw [List.length_cons, ← Nat.add_assoc, List.flatten_cons, List.append_assoc, findLoop,
      getScriptOp_append hx]
    simp [hne, ih (fun y hy => hpre y (List.mem_cons_of_mem _ hy))]

theorem replaceParam_of_splitAt {findOp : opcodetype} {s : CScript} {pre : List CScript}
    {c rest : CScript} (h : SplitAt findOp s pre c rest) (posBefore : Int) (vchParam : valtype) :
    replaceParam s findOp posBefore vchParam =
      if posBefore < 0 then none else replaceOp pre c rest posBefore.toNat vchParam := by
  rw [replaceParam_eq, splitAtOp_complete h h.length_lt]
  rfl

theorem findParam_of_splitAt {findOp : opcodetype} {s : CScript} {pre : List CScript}
    {c rest : CScript} (h : SplitAt findOp s pre c rest) (posBefore : Int) :
    findParam s findOp posBefore =
      if posBefore < 0 then none else paramBefore pre c posBefore.toNat := by
  rw [findParam_eq, splitAtOp_complete h h.length_lt]
  rfl

theorem SplitAt.set_pushData {findOp : opcodetype} {s : CScript} {pre : List CScript}
    {c rest : CScript} (h : SplitAt findOp s pre c rest) (hop : OP_PUSHDATA4 < findOp)
    {b : valtype} (hb : b.length < 2 ^ 32) (j : Nat) :
    SplitAt findOp ((pre.set j (pushData b)).flatten ++ c ++ rest) (pre.set j (pushData b)) c rest := by
  refine ⟨rfl, fun x hx => ?_, h.found⟩
  rcases List.mem_or_eq_of_mem_set hx with hx | rfl
  · exact h.pre_ops x hx
  · obtain ⟨opcode, hle, hpush⟩ := getScriptOp_pushData hb
    refine ⟨opcode, b, ?_, hpush⟩
    intro heq
    subst heq
    rw [UInt8.le_iff_toNat_le] at hle
    rw [UInt8.lt_iff_toNat_lt] at hop
    omega

theorem opData_pushData {b : valtype} (hb : b.length < 2 ^ 32) : opData (pushData b) = b := by
  obtain ⟨opcode, _, hpush⟩ := getScriptOp_pushData hb
  simp [opData, hpush]

theorem find_of_splitAt {op : opcodetype} {s : CScript} {pre : List CScript} {c rest : CScript}
    (h : SplitAt op s pre c rest) : find s op = find (c ++ rest) op := by
  have hle := h.length_le
  have heq := h.eq
  subst heq
  rw [List.append_assoc]
  have hL : (pre.flatten ++ (c ++ rest)).length = pre.flatten.length + (c ++ rest).length :=
    List.length_append ..
  unfold find
  rw [show (pre.flatten ++ (c ++ rest)).length + 1 =
      ((pre.flatten ++ (c ++ rest)).length + 1 - pre.length) + pre.length by omega,
    findLoop_flatten h.pre_ops]
  exact findLoop_fuel (by omega) (by omega)

/-- How `ReplaceParam` can succeed: `findOp` is read after at least
`posBefore + 1` operations, `posBefore` is positive, and the result is the
script with the operation `posBefore` places before `findOp` set to the push. -/
theorem replaceParam_eq_some {findOp : opcodetype} {s : CScript} {posBefore : Int}
    {vchParam : valtype} {r : CScript} (h : replaceParam s findOp posBefore vchParam = some r) :
    ∃ pre c rest, splitAtOp findOp (s.length + 1) s = some (pre, c, rest) ∧
      SplitAt findOp s pre c rest ∧ 0 ≤ posBefore ∧ 0 < posBefore.toNat ∧
      posBefore.toNat < pre.length ∧
      r = (pre.set (pre.length - posBefore.toNat) (pushData vchParam)).flatten ++ c ++ rest := by
  rw [replaceParam_eq] at h
  split_ifs at h with hneg
  obtain ⟨⟨pre, c, rest⟩, hsplit, hr⟩ := Option.bind_eq_some_iff.mp h
  simp only [replaceOp] at hr
  split_ifs at hr with hpos
  cases hr
  exact ⟨pre, c, rest, hsplit, splitAtOp_sound hsplit, by omega, hpos.1, hpos.2, rfl⟩

/-- Replacing a parameter before a non-push opcode, then replacing it again,
is the same as replacing it once with the second value; the first value can
be read back in between. The push of the first value cannot read as `findOp`,
so the second replacement finds the same operations. -/
theorem replaceParam_replaceParam {findOp : opcodetype} (hop : OP_PUSHDATA4 < findOp)
    {s : CScript} {posBefore : Int} {a : valtype} (ha : a.length < 2 ^ 32) (b : valtype)
    {r1 : CScript} (h : replaceParam s findOp posBefore a = some r1) :
    ∃ pre c rest, splitAtOp findOp (s.length + 1) s = some (pre, c, rest) ∧
      splitAtOp findOp (r1.length + 1) r1 =
        some (pre.set (pre.length - posBefore.toNat) (pushData a), c, rest) ∧
      findParam r1 findOp posBefore = some a ∧
      ∃ r2, replaceParam r1 findOp posBefore b = some r2 ∧
        replaceParam s findOp posBefore b = some r2 := by
  obtain ⟨pre, c, rest, hsplit, hs, hnonneg, hpos, hlt, rfl⟩ := replaceParam_eq_some h
  set j := pre.length - posBefore.toNat with hj
  have hr1 := hs.set_pushData hop ha j
  have hlen : (pre.set j (pushData a)).length = pre.length := List.length_set ..
  refine ⟨pre, c, rest, hsplit, splitAtOp_complete hr1 hr1.length_lt, ?_,
    (pre.set j (pushData b)).flatten ++ c ++ rest, ?_, ?_⟩
  · rw [findParam_of_splitAt hr1, if_neg (by omega)]
    simp [paramBefore, hlen, hlt, ← hj, List.getElem?_append_left, opData_pushData ha,
      show j < pre.length by omega]
  · rw [replaceParam_of_splitAt hr1, if_neg (by omega)]
    simp [replaceOp, hlen, hpos, hlt, ← hj]
  · rw [replaceParam_of_splitAt hs, if_neg (by omega)]
    simp [replaceOp, hpos, hlt, ← hj]

theorem findParam_isSome {findOp : opcodetype} {s : CScript} {posBefore : Int}
    (h : (findParam s findOp posBefore).isSome) :
    ∃ pre c rest, SplitAt findOp s pre c rest ∧ 0 ≤ posBefore ∧ posBefore.toNat < pre.length := by
  obtain ⟨d, hd⟩ := Option.isSome_iff_exists.mp h
  rw [findParam_eq] at hd
  split_ifs at hd with hneg
  obtain ⟨⟨pre, c, rest⟩, hsplit, hp⟩ := Option.bind_eq_some_iff.mp hd
  simp only [paramBefore] at hp
  split_ifs at hp with hlt
  exact ⟨pre, c, rest, splitAtOp_sound hsplit, by omega, hlt⟩

/-- Signing an OP_SENDER output whose signature slot has an operation before it:
`UpdateSenderSig` succeeds, and the signed script has the same OP_SENDER count
and the same `WithoutSenderSig` as the unsigned one. -/
theorem updateSenderSig_eq_some {s : CScript} (hs : (findParam s OP_SENDER 1).isSome)
    {a : valtype} (ha : a.length < 2 ^ 32) :
    ∃ r, updateSenderSig s a = some r ∧ withoutSenderSig r = withoutSenderSig s ∧
      hasOpSender r = hasOpSender s := by
  obtain ⟨pre, c, rest, hsplit, -, hlt⟩ := findParam_isSome hs
  have hsender : OP_PUSHDATA4 < OP_SENDER := by decide
  have hupdate : updateSenderSig s a =
      some ((pre.set (pre.length - 1) (pushData a)).flatten ++ c ++ rest) := by
    rw [updateSenderSig, replaceParam_of_splitAt hsplit, if_neg (by omega)]
    simp [replaceOp, show 1 < pre.length by simpa using hlt]
  obtain ⟨-, -, -, -, -, -, r2, hr2, hs2⟩ := replaceParam_replaceParam hsender ha [] hupdate
  refine ⟨_, hupdate, ?_, ?_⟩
  · rw [withoutSenderSig, withoutSenderSig, updateSenderSig, updateSenderSig, hr2, hs2]
    rfl
  · simp only [hasOpSender]
    rw [find_of_splitAt (hsplit.set_pushData hsender ha _), find_of_splitAt hsplit]

end YuPost.Script
