import MessageTransmitter.Library.SortedAssoc
import MessageTransmitter.Library.Transition
import MessageTransmitter.Library.Interleaving
import MessageTransmitter.Common.MessageFormat
import MessageTransmitter.Common.TcpServer
import MessageTransmitter.Receiver.Attachment
import MessageTransmitter.Receiver.ConcurrentFill
import MessageTransmitter.Receiver.Client
import MessageTransmitter.Receiver.ForwardQueue
import MessageTransmitter.Receiver.ForwardOrder
import MessageTransmitter.Sender.Server
import MessageTransmitter.Network.Datagrams
import MessageTransmitter.Network.Transmission
import MessageTransmitter.Receiver.Drain
import MessageTransmitter.Library.Codes
import MessageTransmitter.Receiver.Rendering
import MessageTransmitter.Library.Mutex
import MessageTransmitter.Receiver.Threads
import MessageTransmitter.Receiver.Synchronisation
import MessageTransmitter.Receiver.FailedForward
import MessageTransmitter.Receiver.ThirdParty
import MessageTransmitter.Receiver.ThreadStore
import MessageTransmitter.Library.LinkedTree
import MessageTransmitter.Receiver.NodePointers
import MessageTransmitter.Receiver.BstPointers
import MessageTransmitter.Receiver.References
import MessageTransmitter.Library.Fairness
import MessageTransmitter.Receiver.Liveness
import MessageTransmitter.Network.Clients
import MessageTransmitter.Network.Deployment
import MessageTransmitter.Network.Pipeline
import MessageTransmitter.Common.FdSet
import MessageTransmitter.Common.TcpServerLog
import MessageTransmitter.Library.Monitor
import MessageTransmitter.Receiver.ContainerCalls
import MessageTransmitter.Common.Log
import MessageTransmitter.Network.Completion
import MessageTransmitter.Receiver.Commutation
import MessageTransmitter.Common.SelectSets
import MessageTransmitter.Network.SelectLoops
import MessageTransmitter.Receiver.PtrThreads
