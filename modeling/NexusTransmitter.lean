import NexusTransmitter.BurstErrors
import NexusTransmitter.CrashSafety
import NexusTransmitter.Damage
import NexusTransmitter.Declaration
import NexusTransmitter.Fleet
import NexusTransmitter.Isolation
import NexusTransmitter.ParseBuffer
import NexusTransmitter.Payloads
import NexusTransmitter.Program
import NexusTransmitter.Progress
import NexusTransmitter.ReadAck
import NexusTransmitter.Refusal
import NexusTransmitter.ServerChronicle
import NexusTransmitter.ServerConnections
import NexusTransmitter.ServerLease
import NexusTransmitter.ServerMemory
import NexusTransmitter.ServerNames
import NexusTransmitter.ShortWrites
import NexusTransmitter.Timeouts
