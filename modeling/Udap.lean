import Udap.Lib.Run
import Udap.Cxx.Text
import Udap.Cxx.Path
import Udap.Cxx.Disk
import Udap.Json.Value
import Udap.Json.Text
import Udap.Json.Typed
import Udap.Json.Codec
import Udap.Dap.Needs
import Udap.Dap.Answers
import Udap.Dap.Session
import Udap.Dap.Effects
import Udap.Dap.Traffic
import Udap.Dap.SourceRefs
import Udap.Dap.Target
import Udap.Dap.Request
import Udap.Dap.Handlers
import Udap.Lib.Table
import Udap.Sdcc.Cdb
import Udap.Dbg.Sources
import Udap.Dbg.Breakpoints
import Udap.Cxx.Stream
import Udap.Dap.Framing
import Udap.Dbg.Machine
import Udap.Dbg.Emulation
import Udap.Dap.ClientView
import Udap.Dbg.Replies
import Udap.Dbg.Locations
import Udap.Dbg.StepOver
import Udap.Dbg.StepBack
import Udap.Cxx.Hex
import Udap.Cxx.Regex
import Udap.Lib.Sweep
import Udap.Lib.Loop
import Udap.Dbg.Disassemble
import Udap.Sdcc.CdbParser
import Udap.Sdcc.CdbSafety
import Udap.Sdcc.CdbText
import Udap.Sdcc.CdbLines
import Udap.Sdcc.CdbMarkers
import Udap.Sdcc.MapParser
import Udap.Sdcc.MapText
import Udap.Dbg.Shown
import Udap.Dbg.Listing
import Udap.Dbg.Launch
import Udap.Dbg.Variables
import Udap.Dbg.Relaunch
import Udap.Dbg.Configure
import Udap.Dbg.IntelHex
import Udap.Dbg.Values
import Udap.Dap.SocketStream
import Udap.Dbg.Instruction
import Udap.Dbg.StepOut
import Udap.Dbg.FunctionAt
import Udap.Lib.Base64
import Udap.Dbg.ReadMemory
import Udap.Sdcc.CdbAsm
import Udap.Sdcc.CdbResults
import Udap.Sdcc.CdbStored
import Udap.Sdcc.CdbMalformed
import Udap.Dbg.Origins
import Udap.Dap.SocketInput
import Udap.Dap.Transcript
import Udap.Dap.ScopeRefs
import Udap.Dbg.Evaluate
import Udap.Dbg.LoadedSources
import Udap.Dbg.Undone
import Udap.Dbg.Continue
import Udap.Dbg.StepIn
import Udap.Dbg.ListingText
import Udap.Dbg.SourceText
import Udap.Sdcc.MapFile
import Udap.Dap.SocketOutput
import Udap.Dap.InputFormat
import Udap.Dbg.FunctionText
