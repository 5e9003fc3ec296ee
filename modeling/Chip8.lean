import Chip8.Text.Hex
import Chip8.Text.Numeral
import Chip8.Text.Record
import Chip8.Word
import Chip8.Instruction.Basic
import Chip8.Instruction.Decode
import Chip8.Instruction.Assembly
import Chip8.Instruction.Diagnostic
import Chip8.Glyph
import Chip8.Memory
import Chip8.Screen
import Chip8.Keypad
import Chip8.Timers
import Chip8.Random
import Chip8.Log
import Chip8.State.Basic
import Chip8.State.Execute
import Chip8.State.Step
import Chip8.State.Event
import Chip8.State.Action
import Chip8.State.Diagnostic
import Chip8.Source
import Chip8.Listing.Line
import Chip8.Listing.Dump
import Chip8.Listing.Selection
import Chip8.Machine.Basic
import Chip8.Machine.Pace
import Chip8.Machine.Prompt
import Chip8.Machine.Operation
import Chip8.Command.Directory
import Chip8.Command.Files
import Chip8.Command.Arguments
import Chip8.Command.Outcome
import Chip8.Command.List
import Chip8.Command.Play
import Chip8.Main
import Chip8.Proofs.State.Run
import Chip8.Proofs.Memory.Ring
import Chip8.Proofs.State.Ring
import Chip8.Proofs.Stack.Move
import Chip8.Proofs.Stack.Invariant
import Chip8.Proofs.Stack.Return
import Chip8.Proofs.Memory.Load
import Chip8.Proofs.Listing.Sweep
import Chip8.Proofs.Listing.Fetch
import Chip8.Proofs.Text.Hex
import Chip8.Proofs.Text.Join
import Chip8.Proofs.Instruction.Code
import Chip8.Proofs.Instruction.Text
import Chip8.Proofs.Listing.Plain
import Chip8.Proofs.Listing.Full
import Chip8.Proofs.Listing.Sink
import Chip8.Proofs.State.Trace
import Chip8.Proofs.State.Footprint
import Chip8.Proofs.Listing.Straight
import Chip8.Proofs.Keypad.Wait
import Chip8.Proofs.Timers.Use
import Chip8.Proofs.Timers.Schedule
import Chip8.Proofs.Timers.History
import Chip8.Proofs.Memory.Store
import Chip8.Proofs.State.Reset
import Chip8.Proofs.Random.Stream
import Chip8.Proofs.State.Replay
import Chip8.Proofs.History.Since
import Chip8.Proofs.Keypad.History
import Chip8.Proofs.Stack.Log
import Chip8.Proofs.Source.Read
import Chip8.Proofs.Listing.Default
import Chip8.Proofs.Text.Numeral
import Chip8.Proofs.Listing.Address
import Chip8.Proofs.Listing.Range
import Chip8.Proofs.Machine.Load
import Chip8.Proofs.Machine.Lifecycle
import Chip8.Proofs.Machine.Pace
import Chip8.Proofs.Machine.Rest
import Chip8.Proofs.Screen.Toggle
import Chip8.Proofs.Screen.Draw
import Chip8.Proofs.Screen.Order
import Chip8.Proofs.State.Frame
import Chip8.Proofs.State.Counter
import Chip8.Proofs.State.Arithmetic
import Chip8.Proofs.Memory.ReadBack
import Chip8.Proofs.State.Save
import Chip8.Proofs.Memory.Glyphs
import Chip8.Proofs.Screen.Sprite
import Chip8.Proofs.State.Digit
import Chip8.Proofs.Memory.History
import Chip8.Proofs.Screen.Picture
import Chip8.Proofs.Command.Checks
import Chip8.Proofs.Command.Directory
import Chip8.Proofs.Command.Prepare
import Chip8.Proofs.Command.List
import Chip8.Proofs.Command.Play
