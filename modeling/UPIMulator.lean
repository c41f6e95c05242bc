import UPIMulator.Python
import UPIMulator.Python.Float
import UPIMulator.Chiplet.Stage
import UPIMulator.Chiplet.ChunkPlan
import UPIMulator.Chiplet.Builder
import UPIMulator.Chiplet.Layout
import UPIMulator.Chiplet.Refinement
import UPIMulator.Chiplet.Graph
import UPIMulator.Chiplet.Dependencies
import UPIMulator.Chiplet.Rram
import UPIMulator.Chiplet.Accounting
import UPIMulator.Chiplet.Legacy
import UPIMulator.Chiplet.Shape
import UPIMulator.Dequant.Simulator
import UPIMulator.Chiplet.Config
import UPIMulator.Dequant.Cim
import UPIMulator.Dequant.Error
import UPIMulator.Python.Dict
import UPIMulator.Logs.CycleLog
import UPIMulator.Logs.TransferDebug
import UPIMulator.Report.NocChart
import UPIMulator.Chiplet.LegacyTraffic
import UPIMulator.Python.Csv
import UPIMulator.Logs.TopCycles
import UPIMulator.Logs.PeakTransfer
import UPIMulator.Logs.TransferLine
import UPIMulator.Logs.Regression
import UPIMulator.Chiplet.Generators
import UPIMulator.Logs.Profiler
