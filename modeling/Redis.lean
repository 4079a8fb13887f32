import Redis.Lib.Decimal
import Redis.Lib.F64
import Redis.Lib.Runs
import Redis.Channels
import Redis.ChunkSound
import Redis.MessagesSound
import Redis.FormSound
import Redis.StackSound
import Redis.Lib.HashMap
import Redis.Lib.Footprint
import Redis.Lib.OrdMap
import Redis.SortedSetSound
import Redis.Cmd
import Redis.Geohash
import Redis.Process
import Redis.Registry
import Redis.PropagationSound
import Redis.WatchSound
import Redis.AuthSound
import Redis.BlockedSound
import Redis.ErrorSound
import Redis.AnswerSound
import Redis.Replay
import Redis.PubSub
import Redis.BoundsSound
import Redis.DecodeSound
import Redis.QueueSound
import Redis.RecoverySound
import Redis.AofFilesSound
import Redis.Server
import Redis.Events
import Redis.OrderSound
import Redis.Calls
import Redis.OffsetSound
import Redis.Handoff
import Redis.HandoffSound
import Redis.WaitSound
import Redis.Lib.Since
import Redis.Sessions
import Redis.AbortSound
import Redis.SessionFrame
import Redis.TxnFrame
import Redis.TxnSound
import Redis.StreamSound
import Redis.Deadlines
import Redis.TimerSound
import Redis.ExpirySound
import Redis.ReplicaSound
import Redis.SnapshotSound
import Redis.BlpopSound
import Redis.AppendSound
import Redis.CursorSound
import Redis.Backlogs
import Redis.FiringSound
import Redis.WakeSound
import Redis.RecipientSound
import Redis.Alike
import Redis.AlikeSound
import Redis.OwnSession
import Redis.Paired
import Redis.ReuseSound
import Redis.Lib.Bits
import Redis.BitmapSound
import Redis.XrangeSound
import Redis.RangeSound
import Redis.RankSound
import Redis.ScoreSound
import Redis.InstantSound
import Redis.Lib.Reader
import Redis.Rdb
import Redis.TtlSound
import Redis.Lib.Spread
import Redis.Lib.Grid
import Redis.GeohashSound
import Redis.RdbFormat
import Redis.RdbSound
import Redis.BitcountSound
import Redis.RegistryRuns
import Redis.LoopSound
import Redis.SequentialSound
import Redis.KindSound
import Redis.CounterSound
import Redis.Shipping
import Redis.Locality
import Redis.SameWrites
import Redis.Words
import Redis.Wire
import Redis.Admission
import Redis.Unblocked
import Redis.FollowSound
import Redis.Handshake
import Redis.HandshakeSound
import Redis.SliceSound
import Redis.QueueFrame
import Redis.ServerSound
import Redis.Spelling
import Redis.SpellingSound
import Redis.Lib.Options
import Redis.Startup
import Redis.StartupSound
import Redis.Rebuild
import Redis.Restart
import Redis.RestartSound
