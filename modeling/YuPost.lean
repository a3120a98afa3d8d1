import YuPost.Lib.LittleEndian
import YuPost.Lib.Codec
import YuPost.Lib.Fallible
import YuPost.Consensus.Merkle
import YuPost.Script.Script
import YuPost.Primitives.Transaction
import YuPost.Script.Sighash
import YuPost.Consensus.Reward
import YuPost.Validation.ConnectBlock
import YuPost.Contract.ByteCodeExec
import YuPost.State.ChangeLog
import YuPost.Script.ScriptNum
import YuPost.Script.Standard
import YuPost.Script.Interpreter
import YuPost.Contract.TxConverter
import YuPost.Consensus.Pos
import YuPost.Consensus.Subsidy
import YuPost.Lib.LongDivision
import YuPost.Primitives.ArithUint256
import YuPost.Lib.OrderedStore
import YuPost.Storage.TxDB
import YuPost.Lib.VarInt
import YuPost.Primitives.Compressor
import YuPost.Lib.ExpSeries
import YuPost.Consensus.Retarget
import YuPost.State.Condensing
import YuPost.State.Conservation
import YuPost.Script.ConditionStack
import YuPost.Lib.ParentWalk
import YuPost.Chain.BlockIndex
import YuPost.Chain.Ancestor
import YuPost.Coins.Cache
import YuPost.Lib.UpdateAll
import YuPost.Coins.Refinement
import YuPost.Coins.Usage
import YuPost.Validation.Undo
import YuPost.Lib.Slots
import YuPost.Primitives.Prevector
import YuPost.Primitives.PrevectorRun
import YuPost.Primitives.PrevectorSerialize
import YuPost.Contract.GasRefunds
