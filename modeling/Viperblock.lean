import Viperblock.SnapshotSafety
import Viperblock.SeqNumSafety
import Viperblock.SnapshotCut
import Viperblock.LiveCheckpoint
import Viperblock.MetaSeals
import Viperblock.RecoveryRetrySafety
import Viperblock.GcFloor
import Viperblock.SpaceGate
import Viperblock.NonceUse
import Viperblock.ChunkOrder
import Viperblock.MapOverride
import Viperblock.GcGarbage
import Viperblock.StoreDelete
import Viperblock.PersistRace
import Viperblock.SavedDrains
import Viperblock.WalReaders
import Viperblock.WalReopen
import Viperblock.FileBackend
import Viperblock.MetaBinding
import Viperblock.SnapshotReject
import Viperblock.CoalescedReads
import Viperblock.SimpleFS
import Viperblock.ChunkKeys
import Viperblock.CheckpointDecoder
