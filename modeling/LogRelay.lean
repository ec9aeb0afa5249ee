import LogRelay.Bytes
import LogRelay.Severity
import LogRelay.Text.Padding
import LogRelay.Text.Utf8
import LogRelay.Record.Basic
import LogRelay.Record.Frame
import LogRelay.Record.Stream
import LogRelay.Cursor
import LogRelay.Duration
import LogRelay.Failure
import LogRelay.Ring.Geometry
import LogRelay.Ring.Basic
import LogRelay.Ring.Race
import LogRelay.Settings
import LogRelay.Notice
import LogRelay.Throttle
import LogRelay.Message.Draft
import LogRelay.Message.Script
import LogRelay.Channel
import LogRelay.Thread
import LogRelay.Sink.Basic
import LogRelay.Sink.Console
import LogRelay.Sink.Facade
import LogRelay.Sink.Collector
import LogRelay.Sink.Device
import LogRelay.Sink.Binary
import LogRelay.Sink.Scripted
import LogRelay.Drain
import LogRelay.Relay
import LogRelay.Session
import LogRelay.Demo
import LogRelay.Main
import LogRelay.Proofs.Codec
import LogRelay.Proofs.Retention
import LogRelay.Proofs.DropQueue
import LogRelay.Proofs.Exclusion
import LogRelay.Proofs.Solo
import LogRelay.Proofs.Feeding
import LogRelay.Proofs.Calling
import LogRelay.Proofs.Accounting
import LogRelay.Proofs.Ending
import LogRelay.Proofs.Carrying
import LogRelay.Proofs.Handover
import LogRelay.Proofs.Attribution
import LogRelay.Proofs.Conservation
import LogRelay.Proofs.Admission
import LogRelay.Proofs.Moving
import LogRelay.Proofs.Shutdown
import LogRelay.Proofs.Tracing
import LogRelay.Proofs.Underway
import LogRelay.Proofs.Draining
import LogRelay.Proofs.Delivery
import LogRelay.Proofs.Fidelity
import LogRelay.Proofs.Grammar
import LogRelay.Proofs.Stream
import LogRelay.Proofs.Sifting
import LogRelay.Proofs.Salvage
import LogRelay.Proofs.Filling
import LogRelay.Proofs.Isolation
import LogRelay.Proofs.Throttling
import LogRelay.Proofs.Boundary
import LogRelay.Proofs.Cutting
import LogRelay.Proofs.Truncation
import LogRelay.Proofs.Layers
import LogRelay.Proofs.Window
import LogRelay.Proofs.Flushing
import LogRelay.Proofs.Nesting
import LogRelay.Proofs.Effacement
import LogRelay.Proofs.Agreement
import LogRelay.Proofs.Legibility
import LogRelay.Proofs.Printing
import LogRelay.Proofs.Storage
