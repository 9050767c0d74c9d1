import Terminal.Til.SpscRuns
import Terminal.Input.Win32Input
import Terminal.Input.MouseRoundTrip
import Terminal.Renderer.BrushRuns
import Terminal.Adapter.Reports
import Terminal.Adapter.DcsDispatch
import Terminal.Parser.Base64
import Terminal.Buffer.ClipboardRtf
import Terminal.Adapter.MacroBounds
import Terminal.Core.Paste
import Terminal.Core.Marks
import Terminal.Core.ScrollOffset
import Terminal.Settings.KeyBindings
import Terminal.Settings.ActionMapJson
import Terminal.Host.PendingInput
import Terminal.App.PaneRestore
import Terminal.Host.ClientCommandline
import Terminal.App.PaneSnap
import Terminal.Host.InputBuffer
import Terminal.Adapter.PrintGlyphs
import Terminal.Adapter.RectArea
import Terminal.Types.Subtraction
import Terminal.Core.GlyphMoves
import Terminal.Buffer.Search
import Terminal.Parser.DoubleClicks
import Terminal.Parser.DcsControls
import Terminal.Input.SendChar
import Terminal.Adapter.TabStops
import Terminal.Host.WordMoves
import Terminal.Til.Strings
import Terminal.Host.AliasExpansion
import Terminal.Buffer.ReflowBounds
import Terminal.Lib.Storage
import Terminal.Til.SmallVector
import Terminal.Til.SmallVectorRuns
