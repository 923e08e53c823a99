import Zulangue.Share.CatchUp
import Zulangue.Share.RoomControl
import Zulangue.Stream.Timeline
import Zulangue.Stream.FanInRuns
import Zulangue.Transcript.Erasure
import Zulangue.Capture.Evidence
import Zulangue.Capture.Edits
import Zulangue.Context.WriteOnce
import Zulangue.Share.Watermark
import Zulangue.Migration.Resume
import Zulangue.Replay.Preserved
import Zulangue.Provider.Claims
import Zulangue.Callback.GapDetection
import Zulangue.PostStop.Survives
import Zulangue.PostStop.Tokens
import Zulangue.Shared.Converges
import Zulangue.Community.Admission
import Zulangue.PushGate.Sound
import Zulangue.CaptureView.Converged
import Zulangue.Editor.Acknowledged
import Zulangue.AsyncTab.Kept
import Zulangue.Recorder.Silence
import Zulangue.Stream.Window
import Zulangue.Outline.Metadata
import Zulangue.Transcript.SliceMove
import Zulangue.Audio.ByteDrift
import Zulangue.VtMirror.Halfway
import Zulangue.VtMirror.Records
import Zulangue.Captions.ErasureMeter
import Zulangue.Export.Clipboard
import Zulangue.Context.Gather
import Zulangue.Assembler.Conserved
import Zulangue.LivePresentation.Candidates
import Zulangue.Relay.NeverOver
import Zulangue.Community.Guessing
import Zulangue.Catalogue.Complete
import Zulangue.AsyncTab.Exact
import Zulangue.AsyncTab.Exact
import Zulangue.LaneEdits.Kept
