import Geofence.Fault
import Geofence.Text.Integer
import Geofence.Cell.Basic
import Geofence.Cell.Literal
import Geofence.CellRange
import Geofence.Text.Quoted
import Geofence.Bytes
import Geofence.Format.Basic
import Geofence.Format.Preset
import Geofence.Format.Header
import Geofence.Fault.Message
import Geofence.Table.Packed
import Geofence.Table.Block
import Geofence.RangeFile.Pending
import Geofence.CellList.Text
import Geofence.CellList.Normal
import Geofence.CellList.Merge
import Geofence.Container.Compression
import Geofence.Container.Basic
import Geofence.RangeFile.Writer
import Geofence.RangeFile.Reader
import Geofence.RangeFile.Access
import Geofence.Storage
import Geofence.Build
import Geofence.CommandLine.Options
import Geofence.CommandLine.Command
import Geofence.Main
import Geofence.Proofs.Cell.Index
import Geofence.Proofs.Range.Arc
import Geofence.Proofs.Format.Grid
import Geofence.Proofs.Outcome
import Geofence.Proofs.Partition.Cut
import Geofence.Proofs.Partition.Collect
import Geofence.Proofs.Partition.Order
import Geofence.Proofs.Partition.Tables
import Geofence.Proofs.Bytes.Field
import Geofence.Proofs.Table.Packed
import Geofence.Proofs.Table.SharedData
import Geofence.Proofs.Table.Block
import Geofence.Proofs.Table.Search
import Geofence.Proofs.Partition.Stored
import Geofence.Proofs.Partition.Sorted
import Geofence.Proofs.Container.Writer
import Geofence.Proofs.Format.Header
import Geofence.Proofs.Container.Reader
import Geofence.Proofs.RangeFile.Writer
import Geofence.Proofs.Table.Ranges
import Geofence.Proofs.Partition.Pieces
import Geofence.Proofs.RangeFile.Reader
import Geofence.Proofs.RangeFile.Lookup
import Geofence.Proofs.RangeFile.Ranges
import Geofence.Proofs.Container.Frame
import Geofence.Proofs.RangeFile.Refused
import Geofence.Proofs.Container.Session
import Geofence.Proofs.Container.Truncated
import Geofence.Proofs.Container.Opened
import Geofence.Proofs.Container.Bounds
import Geofence.Proofs.Container.Closing
import Geofence.Proofs.RangeFile.Opening
import Geofence.Proofs.Table.Loaded
import Geofence.Proofs.RangeFile.Calls
import Geofence.Proofs.RangeFile.Untrusted
import Geofence.Proofs.RangeFile.Iteration
import Geofence.Proofs.RangeFile.Session
import Geofence.Proofs.RangeFile.Enumerated
import Geofence.Proofs.RangeFile.Access
import Geofence.Proofs.Partition.Alike
import Geofence.Proofs.RangeFile.Rewritten
import Geofence.Proofs.RangeFile.Accepted
import Geofence.Proofs.Cell.Walk
import Geofence.Proofs.Cell.Passage
import Geofence.Proofs.Cell.Children
import Geofence.Proofs.CellList.Text
import Geofence.Proofs.CellList.Normal
import Geofence.Proofs.CellList.Meaning
import Geofence.Proofs.Range.Join
import Geofence.Proofs.CellList.Merge
import Geofence.Proofs.Format.Preset
import Geofence.Proofs.Disk
import Geofence.Proofs.Build.Verify
import Geofence.Proofs.Build.Create
import Geofence.Proofs.Build.Refused
import Geofence.Proofs.Table.Offers
import Geofence.Proofs.Format.Geometry
import Geofence.Proofs.Range.Cells
import Geofence.Proofs.CellList.Exact
import Geofence.Proofs.Table.Counted
import Geofence.Proofs.Text.Integer
import Geofence.Proofs.Text.Line
import Geofence.Proofs.Text.Numeral
import Geofence.Proofs.CellList.Line
import Geofence.Proofs.Cell.Literal
import Geofence.Proofs.CellList.Written
import Geofence.Proofs.Disk.Folder
import Geofence.Proofs.RangeFile.Page
import Geofence.Proofs.RangeFile.Dump
import Geofence.Proofs.Cell.Neighbours
import Geofence.Proofs.Cell.Name
import Geofence.Proofs.RangeFile.Pending
import Geofence.Proofs.RangeFile.Drained
