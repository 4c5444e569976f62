import Resample.Command.Arguments
import Resample.Command.Failure
import Resample.Command.FileTree
import Resample.Command.Path
import Resample.Command.Picture
import Resample.Command.Run
import Resample.Command.Storage
import Resample.Grid.Address
import Resample.Grid.Error
import Resample.Grid.Plane
import Resample.Grid.Sample
import Resample.Grid.Texture
import Resample.Grid.Window
import Resample.Json.Basic
import Resample.Json.Printer
import Resample.Json.Quoted
import Resample.Json.Reader
import Resample.Kernel.Dither
import Resample.Kernel.Filter
import Resample.Kernel.Guarded
import Resample.Kernel.Launch
import Resample.Kernel.Variant
import Resample.Main
import Resample.Number.Binary
import Resample.Number.Decimal
import Resample.Number.Ratio
import Resample.Number.Word
import Resample.Picture.Format
import Resample.Picture.Frame
import Resample.Proofs.Grid.Axis
import Resample.Proofs.Grid.Bands
import Resample.Proofs.Grid.Bounds
import Resample.Proofs.Grid.Comparison
import Resample.Proofs.Grid.Edits
import Resample.Proofs.Grid.Faults
import Resample.Proofs.Grid.Nesting
import Resample.Proofs.Grid.Packing
import Resample.Proofs.Grid.Partition
import Resample.Proofs.Grid.Writes
import Resample.Proofs.Kernel.Blocks
import Resample.Proofs.Kernel.Channels
import Resample.Proofs.Kernel.Comparison
import Resample.Proofs.Kernel.Coordinates
import Resample.Proofs.Kernel.Depths
import Resample.Proofs.Kernel.Dithering
import Resample.Proofs.Kernel.Drawing
import Resample.Proofs.Kernel.Faults
import Resample.Proofs.Kernel.Identity
import Resample.Proofs.Kernel.Outcome
import Resample.Proofs.Kernel.Overshoot
import Resample.Proofs.Kernel.PixelMap
import Resample.Proofs.Kernel.Refusals
import Resample.Proofs.Kernel.Region
import Resample.Proofs.Kernel.Threshold
import Resample.Proofs.Kernel.Transposition
import Resample.Proofs.Kernel.Variants
import Resample.Proofs.Number.Closest
import Resample.Proofs.Number.Exact
import Resample.Proofs.Number.Magnitude
import Resample.Proofs.Picture.Components
import Resample.Proofs.Picture.Geometry
import Resample.Proofs.Raw.Codec
import Resample.Proofs.Raw.Reading
import Resample.Proofs.Raw.Run
import Resample.Proofs.Scaling.Aspect
import Resample.Proofs.Scaling.Components
import Resample.Proofs.Scaling.Jobs
import Resample.Proofs.Scaling.Limit
import Resample.Proofs.Scaling.Passthrough
import Resample.Proofs.Scaling.Reports
import Resample.Proofs.Scaling.RoundTrip
import Resample.Proofs.Scaling.Run
import Resample.Proofs.Scaling.Serving
import Resample.Proofs.Scaling.Writing
import Resample.Proofs.Size.Circular
import Resample.Proofs.Size.Grammar
import Resample.Proofs.Size.Output
import Resample.Proofs.Size.Runs
import Resample.Proofs.Size.Sides
import Resample.Proofs.Size.Tokens
import Resample.Proofs.Steps
import Resample.Raw.Codec
import Resample.Raw.Reading
import Resample.Raw.Run
import Resample.Scaling.Config
import Resample.Scaling.Error
import Resample.Scaling.Guarded
import Resample.Scaling.Progress
import Resample.Scaling.Route
import Resample.Scaling.Scaler
import Resample.Size.Cursor
import Resample.Size.Expr
import Resample.Size.Guarded
import Resample.Size.Output
import Resample.Size.Token
import Resample.Text.Blank
import Resample.Proofs.Size.Runs
import Resample.Proofs.Raw.Source
import Resample.Kernel.Arithmetic
import Resample.Proofs.Kernel.Reads
import Resample.Proofs.Kernel.Saturation
import Resample.Proofs.Raw.Filling
