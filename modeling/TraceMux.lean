import TraceMux.Core.ClockSync
import TraceMux.Core.CsvRoundTrip
import TraceMux.Core.Exporter.TornIndex
import TraceMux.Core.Framer.LengthPrefixed
import TraceMux.Core.Framer.Line
import TraceMux.Core.Log.GroupCommit
import TraceMux.Core.Importer.Times
import TraceMux.Core.Log.Retention
import TraceMux.Core.Log.Schemas
import TraceMux.Core.Ring
import TraceMux.Core.SafeNames
import TraceMux.Core.Source.FileTail
import TraceMux.Core.SplitLines
import TraceMux.Server.Accounts
import TraceMux.Server.AuthGates
import TraceMux.Server.Bundle
import TraceMux.Server.ConnCounter
import TraceMux.Server.DetectionSample
import TraceMux.Server.DownloadTickets
import TraceMux.Server.Fingerprint
import TraceMux.Server.FrameNumbers
import TraceMux.Server.PcapArtifacts
import TraceMux.Server.PcapMeta
import TraceMux.Server.ProcessChildren
import TraceMux.Server.RemoteWrites
import TraceMux.Server.Retention
import TraceMux.Server.RunnerFraming
import TraceMux.Server.SessionWriters
import TraceMux.Server.SharedDir
import TraceMux.Web.ChannelListeners
import TraceMux.Web.RuleTags
import TraceMux.Web.Checksum
import TraceMux.Web.WireClient
import TraceMux.Core.Decoder.JsonLines
import TraceMux.Core.Source.NativePcap
import TraceMux.Core.Importer.TeraTerm
import TraceMux.Core.Decoder.Nmea
