import HyperFastPath.Listener.Reader
import HyperFastPath.Listener.Detection
import HyperFastPath.FastPath.HandOver
import HyperFastPath.FastPath.ForGood
import HyperFastPath.FastPath.CleanFailure
import HyperFastPath.FastPath.RenderedFrames
import HyperFastPath.FastPath.SyncRoom
import HyperFastPath.FastPath.Lookup
import HyperFastPath.EndToEnd.Reading
import HyperFastPath.FastPath.Conserved
import HyperFastPath.FastPath.Attach
import HyperFastPath.FastPath.Alignment
import HyperFastPath.EndToEnd.RoundTrip
import HyperFastPath.EndToEnd.Tables
import HyperFastPath.EndToEnd.Streams
import HyperFastPath.Dummies.Pool
import HyperFastPath.Dummies.Isolation
import HyperFastPath.FastPath.StreamWindow
import HyperFastPath.EndToEnd.Reports
import HyperFastPath.EndToEnd.Socket
import HyperFastPath.EndToEnd.Protocol
import HyperFastPath.EndToEnd.Order
import HyperFastPath.Dummies.Recycling
import HyperFastPath.Server.Progress
import HyperFastPath.Listener.Bounded
import HyperFastPath.Dummies.Pages
import HyperFastPath.Dummies.Turns
import HyperFastPath.FastPath.Configured
import HyperFastPath.EndToEnd.InStep
