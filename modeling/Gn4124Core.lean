import Gn4124Core.Clocked.AsyncFifo
import Gn4124Core.Clocked.Framing
import Gn4124Core.Clocked.Handshake
import Gn4124Core.Decoder.Delivery
import Gn4124Core.P2lDma.ReadRequests
import Gn4124Core.P2lDma.Path
import Gn4124Core.P2lDma.Reception
import Gn4124Core.Arbitration.Packets
import Gn4124Core.Arbitration.Renewal
import Gn4124Core.Clocked.Flow
import Gn4124Core.Csr.Bridge
import Gn4124Core.Csr.CompletionId
import Gn4124Core.L2pDma.Backpressure
import Gn4124Core.DmaChain.Abort
import Gn4124Core.DmaChain.Execution
import Gn4124Core.DmaControl.Errors
import Gn4124Core.DmaControl.LateWords
import Gn4124Core.DmaControl.Outcomes
import Gn4124Core.DmaControl.ByteSwap
import Gn4124Core.DmaWishbone.DataFifo
import Gn4124Core.L2pDma.Release
import Gn4124Core.P2lDma.Coordination
import Gn4124Core.P2lDma.Landing
import Gn4124Core.DmaWishbone.Alike
import Gn4124Core.L2pDma.Alike
import Gn4124Core.L2pDma.Leftovers
import Gn4124Core.Csr.Decoding
import Gn4124Core.Csr.AddressBits
import Gn4124Core.Decoder.ByteEnables
import Gn4124Core.DmaWishbone.Accounting
import Gn4124Core.P2lDma.Storing
import Gn4124Core.DmaControl.RejectedStarts
import Gn4124Core.L2pDma.Addresses
import Gn4124Core.L2pDma.AddressGenerator
import Gn4124Core.L2pDma.SlowMemory
import Gn4124Core.DmaControl.DoneCredit
import Gn4124Core.DmaControl.IrqPulses
import Gn4124Core.Csr.ExactlyOnce
import Gn4124Core.CLang.Integers
import Gn4124Core.CLang.Memory
import Gn4124Core.CLang.Scanf
import Gn4124Core.Rawrabbit.Driver
import Gn4124Core.Rawrabbit.FileAccess
import Gn4124Core.Rawrabbit.IoctlAccess
import Gn4124Core.Rawrabbit.SameRegisters
import Gn4124Core.Rawrabbit.Interrupts
import Gn4124Core.Rawrabbit.IrqLine
import Gn4124Core.Rawrabbit.IrqProtocol
import Gn4124Core.Rawrabbit.AddressCode
import Gn4124Core.Rawrabbit.WordAccess
import Gn4124Core.Rawrabbit.PageList
import Gn4124Core.Rawrabbit.Devsel
import Gn4124Core.Rawrabbit.Selectors
import Gn4124Core.PyLang.Integers
import Gn4124Core.PyLang.Text
import Gn4124Core.RegisterBus.Trace
import Gn4124Core.Eeprom.TwoWire
import Gn4124Core.Eeprom.Transactions
import Gn4124Core.Eeprom.Bursts
import Gn4124Core.Eeprom.Parts
import Gn4124Core.Eeprom.DumpFile
import Gn4124Core.Eeprom.Success
import Gn4124Core.Clocked.LevelChain
import Gn4124Core.Rtl.DmaControllerWbSlave
import Gn4124Core.DmaRegisters.Accesses
import Gn4124Core.DmaRegisters.Loads
import Gn4124Core.RegisterBus.Sequential
import Gn4124Core.DmaRegisters.Readback
import Gn4124Core.Rtl.DummyRegs
import Gn4124Core.Csr.SpecGn4124Test
import Gn4124Core.Csr.RegisterSpace
import Gn4124Core.Rawrabbit.Lifecycle
import Gn4124Core.Rawrabbit.Binding
import Gn4124Core.Memory.Blocks
import Gn4124Core.L2pDma.HostWrites
import Gn4124Core.L2pDma.CarrierToHost
import Gn4124Core.L2pDma.Orders
import Gn4124Core.L2pDma.Copies
import Gn4124Core.P2lDma.Orders
import Gn4124Core.P2lDma.HostToCarrier
import Gn4124Core.DmaSystem.Model
import Gn4124Core.DmaSystem.Execution
