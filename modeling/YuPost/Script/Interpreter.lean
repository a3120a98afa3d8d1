import YuPost.Script.Standard

/-! `EvalScript` of `script/interpreter.cpp` over the operations a contract
output is made of: data pushes, the small numbers, OP_SENDER, and OP_CREATE,
OP_CALL and OP_SPEND, which end the evaluation. The checks of the loop itself
are kept: the script size, the push size, the operation count, the disabled
opcodes, OP_CODESEPARATOR, minimal pushes and the stack size. The other cases
of the interpreter's switch (stack and arithmetic operations, hashes,
signature checks) are the parameter `execOther`: what an opcode makes of the
stack, or `none` for an error. Flow control, the alternate stack and the
condition stack are not modelled: every operation here is executed.

The stack is a list with its top first. `EvalScript` writes its caller's stack
in place and returns a flag; the model returns both, the stack as it stands
where the function returns. -/

namespace YuPost.Script

open YuPost.Lib

def OP_CODESEPARATOR : opcodetype := 0xab

/-- The opcodes `EvalScript` refuses wherever they stand: OP_CAT, OP_SUBSTR,
OP_LEFT, OP_RIGHT, OP_INVERT, OP_AND, OP_OR, OP_XOR, OP_2MUL, OP_2DIV, OP_MUL,
OP_DIV, OP_MOD, OP_LSHIFT and OP_RSHIFT. -/
def disabledOpcodes : List opcodetype :=
  [0x7e, 0x7f, 0x80, 0x81, 0x83, 0x84, 0x85, 0x86, 0x8d, 0x8e, 0x95, 0x96, 0x97, 0x98, 0x99]

def SCRIPT_VERIFY_MINIMALDATA : UInt32 := 0x40

def SCRIPT_VERIFY_CONST_SCRIPTCODE : UInt32 := 0x10000

def SCRIPT_OUTPUT_SENDER : UInt32 := 0x20000000

def SCRIPT_EXEC_BYTE_CODE : UInt32 := 0x40000000

def MAX_SCRIPT_ELEMENT_SIZE : Nat := 128000

def MAX_OPS_PER_SCRIPT : Nat := 201

def MAX_SCRIPT_SIZE : Nat := 129000

def MAX_STACK_SIZE : Nat := 1000

/-- `CheckMinimalPush`: the push opcode is the shortest one for the data. -/
def checkMinimalPush (data : valtype) (opcode : opcodetype) : Bool :=
  if data.length = 0 then opcode = OP_0
  else if data.length = 1 ∧ 1 ≤ data.headD 0 ∧ data.headD 0 ≤ 16 then false
  else if data.length = 1 ∧ data.headD 0 = 0x81 then false
  else if data.length ≤ 75 then opcode.toNat = data.length
  else if data.length ≤ 255 then opcode = OP_PUSHDATA1
  else if data.length ≤ 65535 then opcode = OP_PUSHDATA2
  else true

/-- How the body of the loop of `EvalScript` leaves an operation: on to the
next one with the stack, or out of the function with its result. -/
inductive OpOutcome
  | next (stack : List valtype)
  | exit (success : Bool) (stack : List valtype)

/-- One executed operation, read at `pc`: a push, then the cases of the switch.
OP_CREATE and OP_CALL push the rest of the script from their own byte on and
return true, as OP_SPEND returns true at once. -/
def execOp (flags : UInt32) (execOther : opcodetype → List valtype → Option (List valtype))
    (opcode : opcodetype) (vchPushValue : valtype) (pc : List UInt8) (stack : List valtype) :
    OpOutcome :=
  if opcode ≤ OP_PUSHDATA4 then
    if flags &&& SCRIPT_VERIFY_MINIMALDATA ≠ 0 ∧ checkMinimalPush vchPushValue opcode = false then
      .exit false stack
    else .next (vchPushValue :: stack)
  else if opcode = OP_1NEGATE ∨ (OP_1 ≤ opcode ∧ opcode ≤ OP_16) then
    .next (CScriptNum.serialize ((opcode.toNat : Int) - (OP_1.toNat - 1 : Nat)) :: stack)
  else if opcode = OP_SENDER then
    if flags &&& SCRIPT_OUTPUT_SENDER = 0 then .exit false stack else .next stack
  else if opcode = OP_SPEND then .exit true stack
  else if opcode = OP_CREATE ∨ opcode = OP_CALL then .exit true (pc :: stack)
  else
    match execOther opcode stack with
    | some stack => .next stack
    | none => .exit false stack

/-- The loop of `EvalScript` from `pc` on, with `nOpCount` operations above
OP_16 counted so far; a script of `n` bytes is done in `n + 1` turns. -/
def evalScriptLoop (flags : UInt32) (execOther : opcodetype → List valtype → Option (List valtype)) :
    Nat → Nat → List UInt8 → List valtype → Bool × List valtype
  | 0, _, _, stack => (false, stack)
  | _ + 1, _, [], stack => (true, stack)
  | fuel + 1, nOpCount, b :: rest, stack =>
    match getScriptOp (b :: rest) with
    | none => (false, stack)
    | some (opcode, vchPushValue, n) =>
      if vchPushValue.length > MAX_SCRIPT_ELEMENT_SIZE then (false, stack)
      else if opcode > OP_16 ∧ nOpCount + 1 > MAX_OPS_PER_SCRIPT then (false, stack)
      else if opcode ∈ disabledOpcodes then (false, stack)
      else if opcode = OP_CODESEPARATOR ∧ flags &&& SCRIPT_VERIFY_CONST_SCRIPTCODE ≠ 0 then
        (false, stack)
      else
        let nOpCount := if opcode > OP_16 then nOpCount + 1 else nOpCount
        match execOp flags execOther opcode vchPushValue (b :: rest) stack with
        | .exit success stack => (success, stack)
        | .next stack =>
          if stack.length > MAX_STACK_SIZE then (false, stack)
          else evalScriptLoop flags execOther fuel nOpCount ((b :: rest).drop n) stack

def evalScript (flags : UInt32) (execOther : opcodetype → List valtype → Option (List valtype))
    (stack : List valtype) (script : CScript) : Bool × List valtype :=
  if script.length > MAX_SCRIPT_SIZE then (false, stack)
  else evalScriptLoop flags execOther (script.length + 1) 0 script stack

section Step

variable {flags : UInt32} {execOther : opcodetype → List valtype → Option (List valtype)}

theorem not_mem_disabledOpcodes {opcode : opcodetype} (h : opcode.toNat < 0x7e) :
    opcode ∉ disabledOpcodes := by
  have hall : ∀ d ∈ disabledOpcodes, 0x7e ≤ d.toNat := by simp [disabledOpcodes]
  exact fun hm => absurd (hall opcode hm) (by omega)

theorem getScriptOp_of_pushdata4_lt {opcode : opcodetype} (h : OP_PUSHDATA4 < opcode)
    (rest : List UInt8) : getScriptOp (opcode :: rest) = some (opcode, [], 1) := by
  simp [getScriptOp, Nat.not_le.mpr (UInt8.lt_iff_toNat_lt.mp h), UInt8.le_iff_toNat_le]

theorem evalScriptLoop_push {fuel nOpCount : Nat} {pc : List UInt8} {stack : List valtype}
    {opcode : opcodetype} {vch : valtype} {n : Nat} (hop : getScriptOp pc = some (opcode, vch, n))
    (hpush : opcode ≤ OP_PUSHDATA4) (hsize : vch.length ≤ MAX_SCRIPT_ELEMENT_SIZE)
    (hminimal : flags &&& SCRIPT_VERIFY_MINIMALDATA = 0) (hstack : stack.length < MAX_STACK_SIZE) :
    evalScriptLoop flags execOther (fuel + 1) nOpCount pc stack =
      evalScriptLoop flags execOther fuel nOpCount (pc.drop n) (vch :: stack) := by
  have hle : opcode.toNat ≤ 0x4e := UInt8.le_iff_toNat_le.mp hpush
  have hsmall : ¬opcode > OP_16 := fun h => by
    rw [GT.gt, UInt8.lt_iff_toNat_lt] at h
    simp only [OP_16, UInt8.reduceToNat] at h
    omega
  have hsep : opcode ≠ OP_CODESEPARATOR := fun h => by
    subst h
    exact absurd hle (by decide)
  cases pc with
  | nil => simp [getScriptOp] at hop
  | cons b rest =>
    simp only [evalScriptLoop, hop]
    rw [if_neg (by omega), if_neg (by simp [hsmall]), if_neg (not_mem_disabledOpcodes (by omega)),
      if_neg (by simp [hsep])]
    simp only [hsmall, if_false, execOp, if_pos hpush, hminimal, ne_eq, not_true_eq_false,
      false_and, if_false, List.length_cons]
    rw [if_neg (by omega)]

theorem evalScriptLoop_pushData {fuel nOpCount : Nat} {b : valtype} {rest : List UInt8}
    {stack : List valtype} (hsize : b.length ≤ MAX_SCRIPT_ELEMENT_SIZE)
    (hminimal : flags &&& SCRIPT_VERIFY_MINIMALDATA = 0) (hstack : stack.length < MAX_STACK_SIZE) :
    evalScriptLoop flags execOther (fuel + 1) nOpCount (pushData b ++ rest) stack =
      evalScriptLoop flags execOther fuel nOpCount rest (b :: stack) := by
  have hb : b.length < 2 ^ 32 := by
    unfold MAX_SCRIPT_ELEMENT_SIZE at hsize
    omega
  obtain ⟨opcode, hpush, hop⟩ := getScriptOp_pushData hb
  rw [evalScriptLoop_push (getScriptOp_append hop rest) hpush hsize hminimal hstack, List.drop_left]

theorem execOp_sender (hsender : flags &&& SCRIPT_OUTPUT_SENDER ≠ 0) (vch : valtype) (pc : List UInt8)
    (stack : List valtype) : execOp flags execOther OP_SENDER vch pc stack = .next stack := by
  have hnum : ¬(OP_SENDER = OP_1NEGATE ∨ (OP_1 ≤ OP_SENDER ∧ OP_SENDER ≤ OP_16)) := by decide
  rw [execOp, if_neg (by decide), if_neg hnum, if_pos rfl, if_neg hsender]

theorem execOp_contract {op : opcodetype} (hop : op = OP_CREATE ∨ op = OP_CALL) (vch : valtype)
    (pc : List UInt8) (stack : List valtype) :
    execOp flags execOther op vch pc stack = .exit true (pc :: stack) := by
  have hcases : ¬op ≤ OP_PUSHDATA4 ∧ ¬(op = OP_1NEGATE ∨ (OP_1 ≤ op ∧ op ≤ OP_16)) ∧
      op ≠ OP_SENDER ∧ op ≠ OP_SPEND := by
    rcases hop with rfl | rfl <;> decide
  obtain ⟨hpush, hnum, hsender, hspend⟩ := hcases
  rw [execOp, if_neg hpush, if_neg hnum, if_neg hsender, if_neg hspend, if_pos hop]

theorem evalScriptLoop_op {fuel nOpCount : Nat} {op : opcodetype} {rest : List UInt8}
    {stack : List valtype} (h16 : OP_16 < op) (hdisabled : op ∉ disabledOpcodes)
    (hsep : op ≠ OP_CODESEPARATOR) (hcount : nOpCount + 1 ≤ MAX_OPS_PER_SCRIPT) :
    evalScriptLoop flags execOther (fuel + 1) nOpCount (op :: rest) stack =
      match execOp flags execOther op [] (op :: rest) stack with
      | .exit success stack => (success, stack)
      | .next stack =>
        if stack.length > MAX_STACK_SIZE then (false, stack)
        else evalScriptLoop flags execOther fuel (nOpCount + 1) rest stack := by
  have hpush : OP_PUSHDATA4 < op := UInt8.lt_iff_toNat_lt.mpr (by
    have := UInt8.lt_iff_toNat_lt.mp h16
    simp only [OP_16, OP_PUSHDATA4, UInt8.reduceToNat] at this ⊢
    omega)
  simp only [evalScriptLoop, getScriptOp_of_pushdata4_lt hpush]
  rw [if_neg (by simp), if_neg (by omega), if_neg hdisabled, if_neg (by simp [hsep])]
  simp only [GT.gt, h16, if_true, List.drop_one, List.tail_cons]

theorem evalScriptLoop_sender {fuel nOpCount : Nat} {rest : List UInt8} {stack : List valtype}
    (hsender : flags &&& SCRIPT_OUTPUT_SENDER ≠ 0) (hcount : nOpCount + 1 ≤ MAX_OPS_PER_SCRIPT)
    (hstack : stack.length ≤ MAX_STACK_SIZE) :
    evalScriptLoop flags execOther (fuel + 1) nOpCount (OP_SENDER :: rest) stack =
      evalScriptLoop flags execOther fuel (nOpCount + 1) rest stack := by
  rw [evalScriptLoop_op (by decide) (by decide) (by decide) hcount, execOp_sender hsender]
  exact if_neg (by omega)

theorem evalScriptLoop_contract {fuel nOpCount : Nat} {op : opcodetype} {rest : List UInt8}
    {stack : List valtype} (hop : op = OP_CREATE ∨ op = OP_CALL)
    (hcount : nOpCount + 1 ≤ MAX_OPS_PER_SCRIPT) :
    evalScriptLoop flags execOther (fuel + 1) nOpCount (op :: rest) stack =
      (true, (op :: rest) :: stack) := by
  have hop' : OP_16 < op ∧ op ∉ disabledOpcodes ∧ op ≠ OP_CODESEPARATOR := by
    rcases hop with rfl | rfl <;> decide
  rw [evalScriptLoop_op hop'.1 hop'.2.1 hop'.2.2 hcount, execOp_contract hop]

end Step

section Pushes

variable {flags : UInt32} {execOther : opcodetype → List valtype → Option (List valtype)}

theorem evalScriptLoop_pushes {fuel nOpCount : Nat} {rest : List UInt8}
    (hminimal : flags &&& SCRIPT_VERIFY_MINIMALDATA = 0) :
    ∀ (items stack : List valtype), (∀ b ∈ items, b.length ≤ MAX_SCRIPT_ELEMENT_SIZE) →
      stack.length + items.length ≤ MAX_STACK_SIZE →
      evalScriptLoop flags execOther (fuel + items.length) nOpCount
          ((items.map pushData).flatten ++ rest) stack =
        evalScriptLoop flags execOther fuel nOpCount rest (items.reverse ++ stack)
  | [], _, _, _ => rfl
  | b :: items, stack, hsize, hstack => by
    have hb : b.length ≤ MAX_SCRIPT_ELEMENT_SIZE := hsize b List.mem_cons_self
    simp only [List.length_cons] at hstack
    rw [List.map_cons, List.flatten_cons, List.append_assoc, List.length_cons, ← Nat.add_assoc,
      evalScriptLoop_pushData hb hminimal (by omega),
      evalScriptLoop_pushes hminimal items (b :: stack) (fun x hx => hsize x (List.mem_cons_of_mem b hx))
        (by simp only [List.length_cons]; omega)]
    simp

theorem find_pushData_append {b : valtype} (hb : b.length < 2 ^ 32) {op : opcodetype}
    (hop : OP_PUSHDATA4 < op) (rest : List UInt8) : find (pushData b ++ rest) op = find rest op := by
  obtain ⟨opcode, hpush, hread⟩ := getScriptOp_pushData hb
  have hne : opcode ≠ op := fun h => by
    subst h
    exact absurd (UInt8.le_iff_toNat_le.mp hpush) (Nat.not_le.mpr (UInt8.lt_iff_toNat_lt.mp hop))
  rw [find_step (getScriptOp_append hread rest), if_neg hne, List.drop_left, Nat.zero_add]

theorem find_pushes {op : opcodetype} (hop : OP_PUSHDATA4 < op) (rest : List UInt8) :
    ∀ items : List valtype, (∀ b ∈ items, b.length < 2 ^ 32) →
      find ((items.map pushData).flatten ++ rest) op = find rest op
  | [], _ => rfl
  | b :: items, h => by
    rw [List.map_cons, List.flatten_cons, List.append_assoc,
      find_pushData_append (h b List.mem_cons_self) hop,
      find_pushes hop rest items (fun x hx => h x (List.mem_cons_of_mem b hx))]

theorem find_cons_of_pushdata4_lt {op' : opcodetype} (h : OP_PUSHDATA4 < op') (rest : List UInt8)
    (op : opcodetype) : find (op' :: rest) op = (if op' = op then 1 else 0) + find rest op := by
  rw [find_step (getScriptOp_of_pushdata4_lt h rest), List.drop_one, List.tail_cons]

end Pushes

end YuPost.Script
