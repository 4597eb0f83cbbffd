import Mt8169.Cmdq.ThreadCallback
import Mt8169.Cmdq.ThreadClock
import Mt8169.Mdp.FlushValid
import Mt8169.Cmdq.ThreadChain
import Mt8169.Mdp.Placement
import Mt8169.Cmdq.Ageing
import Mt8169.Mdp.DispatchOrder
import Mt8169.Battery.Coulomb
import Mt8169.Battery.Shutdown
import Mt8169.Power.PdIndex
import Mt8169.Power.Enable
import Mt8169.Power.Verdict
import Mt8169.Power.Voltage
import Mt8169.Dsp.Drop
import Mt8169.Dsp.PrintLog
import Mt8169.Mdp.WriteAddress
import Mt8169.Thermal.VirtualSensor
import Mt8169.TrustedMem.Interleaving
import Mt8169.Svs.Voltage
import Mt8169.Svs.Init
import Mt8169.Typec.Timeout
import Mt8169.Btif.Send
import Mt8169.Btif.Delivery
import Mt8169.Mbox.SendCompl
import Mt8169.Layering.Yuv
import Mt8169.Layering.Overlap
import Mt8169.Fence.Buffers
import Mt8169.Layering.BlobIdx
import Mt8169.Cmdq.CurrentRun
import Mt8169.Layering.SecondDisplay
import Mt8169.Cmdq.Finalize
import Mt8169.Mdp.WaitResult
import Mt8169.Mdp.ReadAddress
import Mt8169.Thermal.Smoothing
import Mt8169.Dsp.LoadCheck
import Mt8169.Power.Jeita
import Mt8169.Power.PdChoice
import Mt8169.Battery.Cycle
import Mt8169.Btif.TxPoll
import Mt8169.Battery.Reads
import Mt8169.Btif.ParseEvent
import Mt8169.Battery.Car
import Mt8169.Battery.SystemInfo
import Mt8169.Battery.Temperature
import Mt8169.Btif.RxDma
import Mt8169.Mmp.EventName
import Mt8169.Svs.Interpolate
import Mt8169.Mmp.Dump
