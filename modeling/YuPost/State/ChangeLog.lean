import Mathlib

/-! The transfers an EVM execution records and how
`YuPostState::validateTransfersWithChangeLog` (`yupost/yupoststate.cpp`)
filters them against the state's change log before they are condensed.

`YuPostState::transferBalance` pushes a transfer of positive value and, through
`subBalance` and `addBalance`, two `Balance` entries: the sender's, of value
`0 - v` as a `dev::u256`, then the receiver's. The change log is the external
`dev::eth::State`'s: other `Balance` entries (gas, refunds, the author's
reward) are appended to it, and a rollback truncates it to the length a
savepoint recorded, while the transfers stay. A run of the state is a list of
such operations (`StateOp`), and `survivingTransfers` is what a run leaves:
the transfers whose own entries were not rolled back.

Values are `dev::u256`, natural numbers below `2 ^ 256`. -/

namespace YuPost.State

/-- `dev::Address`: twenty bytes. -/
abbrev Address := List UInt8

def zeroAddress : Address := List.replicate 20 0

/-- `0 - v` in `dev::u256`. -/
def u256Neg (v : Nat) : Nat := (2 ^ 256 - v % 2 ^ 256) % 2 ^ 256

/-- The kinds of `dev::eth::Change` the filter tells apart. -/
inductive ChangeKind
  | Balance
  | Touch
  | Other
deriving DecidableEq, Repr

structure Change where
  kind : ChangeKind
  address : Address
  value : Nat
deriving DecidableEq, Repr

/-- `TransferInfo`; its `from` and `to` are `sender` and `receiver` here. -/
structure TransferInfo where
  sender : Address
  receiver : Address
  value : Nat
deriving DecidableEq, Repr

/-- The first `Balance` entry of the log crediting the transfer's receiver
with its value. -/
def findReceiverEntry (log : List Change) (ti : TransferInfo) : Option Nat :=
  log.findIdx? fun c => c.kind == .Balance && c.address == ti.receiver && c.value == ti.value

/-- The first `Balance` entry of the log debiting the transfer's sender by its
value. -/
def findSenderEntry (log : List Change) (ti : TransferInfo) : Option Nat :=
  log.findIdx? fun c => c.kind == .Balance && c.address == ti.sender && c.value == u256Neg ti.value

/-- An entry used by a transfer: its address set to zero. -/
def zeroOut (log : List Change) (i : Nat) : List Change :=
  log.mapIdx fun k c => if k = i then { c with address := zeroAddress } else c

/-- One turn of the loop over the transfers: the first matching receiver
entry is looked for, then the first matching sender entry; with both the
transfer is kept and both entries are zeroed out, and without a sender entry
the transfer is dropped. -/
def validateStep (acc : List TransferInfo × List Change) (ti : TransferInfo) :
    List TransferInfo × List Change :=
  match findReceiverEntry acc.2 ti with
  | none => acc
  | some i =>
    match findSenderEntry acc.2 ti with
    | none => acc
    | some j => (acc.1 ++ [ti], zeroOut (zeroOut acc.2 i) j)

def validateTransfersWithChangeLog (transfers : List TransferInfo) (changeLog : List Change) :
    List TransferInfo :=
  (transfers.foldl validateStep ([], changeLog)).1

theorem validateStep_fst (acc : List TransferInfo × List Change) (ti : TransferInfo) :
    (validateStep acc ti).1 = acc.1 ∨ (validateStep acc ti).1 = acc.1 ++ [ti] := by
  unfold validateStep
  split
  · exact .inl rfl
  · split
    · exact .inl rfl
    · exact .inr rfl

theorem foldl_validateStep_sublist (ts : List TransferInfo) (acc : List TransferInfo × List Change) :
    ∃ kept, kept.Sublist ts ∧ (ts.foldl validateStep acc).1 = acc.1 ++ kept := by
  induction ts generalizing acc with
  | nil => exact ⟨[], .slnil, (List.append_nil _).symm⟩
  | cons ti ts ih =>
    obtain ⟨kept, hsub, heq⟩ := ih (validateStep acc ti)
    rw [List.foldl_cons, heq]
    rcases validateStep_fst acc ti with h | h
    · exact ⟨kept, hsub.cons ti, by rw [h]⟩
    · exact ⟨ti :: kept, hsub.cons_cons ti, by rw [h, List.append_assoc, List.singleton_append]⟩

theorem validateTransfersWithChangeLog_sublist (ts : List TransferInfo) (log : List Change) :
    (validateTransfersWithChangeLog ts log).Sublist ts := by
  obtain ⟨kept, hsub, heq⟩ := foldl_validateStep_sublist ts ([], log)
  rw [validateTransfersWithChangeLog, heq, List.nil_append]
  exact hsub

/-- What an execution does to the transfers and the change log. -/
inductive StateOp
  | transferBalance (sender receiver : Address) (value : Nat)
  /-- a `Balance` entry of another origin: gas, a refund, the author's reward -/
  | balance (address : Address) (value : Nat)
  | savepoint
  | rollback

/-- The state a run acts on; each transfer is recorded with the length of the
log before its entries, and whether a rollback has removed them. -/
structure RunState where
  transfers : List TransferInfo
  changeLog : List Change
  savepoints : List Nat
  recorded : List (TransferInfo × Nat × Bool)

def RunState.init : RunState := ⟨[], [], [], []⟩

def step (s : RunState) : StateOp → RunState
  | .transferBalance sender receiver value =>
    if value = 0 then s
    else
      let ti : TransferInfo := ⟨sender, receiver, value⟩
      { s with
        transfers := s.transfers ++ [ti]
        changeLog := s.changeLog ++ [⟨.Balance, sender, u256Neg value⟩, ⟨.Balance, receiver, value⟩]
        recorded := s.recorded ++ [(ti, s.changeLog.length, true)] }
  | .balance address value =>
    if value = 0 then s else { s with changeLog := s.changeLog ++ [⟨.Balance, address, value⟩] }
  | .savepoint => { s with savepoints := s.changeLog.length :: s.savepoints }
  | .rollback =>
    match s.savepoints with
    | [] => s
    | saved :: savepoints =>
      { s with
        changeLog := s.changeLog.take saved
        savepoints
        recorded := s.recorded.map fun (ti, at_, alive) => (ti, at_, alive && at_ < saved) }

def run (ops : List StateOp) : RunState := ops.foldl step RunState.init

/-- The transfers whose own change-log entries are still there. -/
def survivingTransfers (s : RunState) : List TransferInfo :=
  (s.recorded.filter fun r => r.2.2).map (·.1)

/-- What every reachable state satisfies. The savepoints are a stack of log
lengths, the latest on top, none beyond the log and none between the two
entries of a transfer, and each transfer not rolled back has its two entries at
the place recorded for it. -/
structure RunState.Wf (s : RunState) : Prop where
  transfers_eq : s.recorded.map (·.1) = s.transfers
  savepoints_sorted : s.savepoints.Pairwise (· ≥ ·)
  savepoints_le : ∀ sv ∈ s.savepoints, sv ≤ s.changeLog.length
  entries : ∀ r ∈ s.recorded, r.2.2 = true →
    s.changeLog[r.2.1]? = some ⟨.Balance, r.1.sender, u256Neg r.1.value⟩ ∧
    s.changeLog[r.2.1 + 1]? = some ⟨.Balance, r.1.receiver, r.1.value⟩ ∧
    ∀ sv ∈ s.savepoints, sv ≤ r.2.1 ∨ r.2.1 + 2 ≤ sv

theorem RunState.wf_init : RunState.init.Wf where
  transfers_eq := rfl
  savepoints_sorted := .nil
  savepoints_le _ h := nomatch h
  entries _ h := nomatch h

section Step

variable {s : RunState}

theorem lt_length_of_getElem?_eq_some {log : List Change} {k : Nat} {c : Change}
    (h : log[k]? = some c) : k < log.length :=
  (List.getElem?_eq_some_iff.mp h).1

theorem entries_append (hs : s.Wf) (extra : List Change) :
    ∀ r ∈ s.recorded, r.2.2 = true →
      (s.changeLog ++ extra)[r.2.1]? = some ⟨.Balance, r.1.sender, u256Neg r.1.value⟩ ∧
      (s.changeLog ++ extra)[r.2.1 + 1]? = some ⟨.Balance, r.1.receiver, r.1.value⟩ ∧
      ∀ sv ∈ s.savepoints, sv ≤ r.2.1 ∨ r.2.1 + 2 ≤ sv := by
  intro r hr halive
  obtain ⟨hsend, hrecv, hsv⟩ := hs.entries r hr halive
  have hlt := lt_length_of_getElem?_eq_some hrecv
  refine ⟨?_, ?_, hsv⟩
  · rw [List.getElem?_append_left (by omega), hsend]
  · rw [List.getElem?_append_left hlt, hrecv]

theorem wf_step_transferBalance (hs : s.Wf) (sender receiver : Address) (value : Nat) :
    (step s (.transferBalance sender receiver value)).Wf := by
  rw [step]
  split_ifs with hzero
  · exact hs
  constructor
  · simp only [List.map_append, hs.transfers_eq, List.map_singleton]
  · exact hs.savepoints_sorted
  · intro sv hsv
    have := hs.savepoints_le sv hsv
    simp only [List.length_append, List.length_cons, List.length_nil]
    omega
  · -- the transfers before keep their entries; the new one finds its own at
    -- the old end of the log, above every savepoint
    intro r hr halive
    rcases List.mem_append.mp hr with hr | hr
    · exact entries_append hs _ r hr halive
    · obtain rfl := List.mem_singleton.mp hr
      refine ⟨?_, ?_, fun sv hsv => .inl (hs.savepoints_le sv hsv)⟩
      · simp
      · simp

theorem wf_step_balance (hs : s.Wf) (address : Address) (value : Nat) :
    (step s (.balance address value)).Wf := by
  rw [step]
  split_ifs
  · exact hs
  refine ⟨hs.transfers_eq, hs.savepoints_sorted, fun sv hsv => ?_, entries_append hs _⟩
  have := hs.savepoints_le sv hsv
  simp only [List.length_append, List.length_cons, List.length_nil]
  omega

theorem wf_step_savepoint (hs : s.Wf) : (step s .savepoint).Wf := by
  refine ⟨hs.transfers_eq, ?_, ?_, ?_⟩
  · exact List.pairwise_cons.mpr ⟨hs.savepoints_le, hs.savepoints_sorted⟩
  · intro sv hsv
    rcases List.mem_cons.mp hsv with rfl | hsv
    · exact Nat.le_refl _
    · exact hs.savepoints_le sv hsv
  · -- the new savepoint is the log's length, past both entries of each transfer
    intro r hr halive
    obtain ⟨hsend, hrecv, hsv⟩ := hs.entries r hr halive
    have hlt := lt_length_of_getElem?_eq_some hrecv
    refine ⟨hsend, hrecv, fun sv hmem => ?_⟩
    rcases List.mem_cons.mp hmem with rfl | hmem
    · exact .inr hlt
    · exact hsv sv hmem

theorem wf_step_rollback (hs : s.Wf) : (step s .rollback).Wf := by
  rw [step]
  split
  · exact hs
  next saved savepoints hsp =>
  have hsorted := hs.savepoints_sorted
  rw [hsp, List.pairwise_cons] at hsorted
  have hsaved := hs.savepoints_le
  rw [hsp] at hsaved
  refine ⟨?_, hsorted.2, ?_, ?_⟩
  · simp only [List.map_map]
    exact hs.transfers_eq
  · intro sv hsv
    have h₁ := hsaved sv (List.mem_cons_of_mem _ hsv)
    have h₂ := hsorted.1 sv hsv
    rw [List.length_take]
    omega
  · -- a transfer kept alive lies below the savepoint, and so do both its
    -- entries, since no savepoint falls between them
    intro r hr halive
    obtain ⟨⟨ti, at_, alive⟩, hr₀, rfl⟩ := List.mem_map.mp hr
    simp only [Bool.and_eq_true, decide_eq_true_eq] at halive ⊢
    obtain ⟨halive, hbelow⟩ := halive
    obtain ⟨hsend, hrecv, hsv⟩ := hs.entries _ hr₀ halive
    dsimp only at hsend hrecv hsv
    rw [hsp] at hsv
    have hsaved₂ : at_ + 2 ≤ saved := by
      rcases hsv saved List.mem_cons_self with h | h <;> omega
    refine ⟨?_, ?_, fun sv hmem => hsv sv (List.mem_cons_of_mem _ hmem)⟩
    · rw [List.getElem?_take_of_lt (by omega), hsend]
    · rw [List.getElem?_take_of_lt (by omega), hrecv]

theorem wf_step (hs : s.Wf) : ∀ op, (step s op).Wf
  | .transferBalance sender receiver value => wf_step_transferBalance hs sender receiver value
  | .balance address value => wf_step_balance hs address value
  | .savepoint => wf_step_savepoint hs
  | .rollback => wf_step_rollback hs

end Step

theorem wf_foldl_step (ops : List StateOp) {s : RunState} (hs : s.Wf) : (ops.foldl step s).Wf := by
  induction ops generalizing s with
  | nil => exact hs
  | cons op ops ih => exact ih (wf_step hs op)

theorem wf_run (ops : List StateOp) : (run ops).Wf :=
  wf_foldl_step ops RunState.wf_init

/-- A transfer from `A` to `B` rolled back, then two that stay: `A` pays `C`
and `D` pays `B` the same value. The rolled-back transfer finds `B`'s credit
from `D` and `A`'s debit towards `C`, is kept, and zeroes both; neither
surviving transfer then finds its entries, and both are dropped. -/
theorem validateTransfers_keeps_rolled_back :
    let a : Address := List.replicate 20 1
    let b : Address := List.replicate 20 2
    let c : Address := List.replicate 20 3
    let d : Address := List.replicate 20 4
    let s := run [.savepoint, .transferBalance a b 5, .rollback, .transferBalance a c 5,
      .transferBalance d b 5]
    validateTransfersWithChangeLog s.transfers s.changeLog = [⟨a, b, 5⟩] ∧
      survivingTransfers s = [⟨a, c, 5⟩, ⟨d, b, 5⟩] := by
  decide

end YuPost.State
