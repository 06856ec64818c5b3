import WebServ.Machine.Path
import WebServ.Proofs.LineScanner
import WebServ.Proofs.RequestLine
import WebServ.Proofs.HeaderLine
import WebServ.Soundness.RequestParser
import WebServ.Soundness.Segmentation
import WebServ.Soundness.RequestBody
import WebServ.Model.Response
import WebServ.Model.ResponseWriter
import WebServ.Soundness.ResponseWriter
import WebServ.Model.Server
import WebServ.Machine.KeyedList
import WebServ.Proofs.Server
import WebServ.Soundness.Connections
import WebServ.Soundness.OpenDescriptors
import WebServ.Machine.Fairness
import WebServ.Model.ThreadPool
import WebServ.Soundness.ThreadPool
import WebServ.Model.DoRequest
import WebServ.Text.LexicalPath
import WebServ.Proofs.DoRequest
import WebServ.Soundness.Users
import WebServ.Soundness.Containment
import WebServ.Soundness.Timers
import WebServ.Soundness.Ownership
import WebServ.Machine.Ring
import WebServ.Model.BlockQueue
import WebServ.Proofs.BlockQueue
import WebServ.Soundness.BlockQueue
import WebServ.Soundness.QueueFront
import WebServ.Model.Log
import WebServ.Proofs.Log
import WebServ.Proofs.LogNames
import WebServ.Proofs.LogFiles
import WebServ.Soundness.Log
import WebServ.Soundness.LogOrder
import WebServ.Soundness.LogFileNames
import WebServ.Soundness.LogDates
import WebServ.Soundness.LogSegments
import WebServ.Machine.Slots
import WebServ.Model.ConnectionPool
import WebServ.Soundness.ConnectionPool
import WebServ.Soundness.GetConnection
import WebServ.Machine.DoublyLinked
import WebServ.Model.SortTimerLst
import WebServ.Proofs.SortTimerLst
import WebServ.Soundness.SortTimerLst
import WebServ.Model.Process
import WebServ.Proofs.RequestLoop
import WebServ.Proofs.RequestedPage
import WebServ.Soundness.Process
import WebServ.Soundness.Isolation
import WebServ.Model.Session
import WebServ.Soundness.Session
import WebServ.Machine.Ledger
import WebServ.Model.Program
import WebServ.Soundness.Mappings
import WebServ.Soundness.LogBounds
import WebServ.Soundness.RequestLine
import WebServ.Soundness.LineErrors
import WebServ.Soundness.ContentLength
import WebServ.Soundness.WriteProgress
import WebServ.Proofs.Credentials
import WebServ.Soundness.CgiBounds
import WebServ.Soundness.StatPath
import WebServ.Proofs.UrlPlace
import WebServ.Soundness.RequestLineStores
import WebServ.Text.Decimal
import WebServ.Proofs.Response
import WebServ.Soundness.ResponseFraming
import WebServ.Soundness.FileSize
import WebServ.Soundness.Login
import WebServ.Soundness.SqlInsert
import WebServ.Soundness.ResponseAppend
import WebServ.Soundness.TimedPop
import WebServ.Model.ReadLoop
import WebServ.Soundness.ReadLoop
import WebServ.Machine.FirstFree
import WebServ.Model.DescriptorTable
import WebServ.Soundness.Descriptors
import WebServ.Machine.Monitor
import WebServ.Model.QueueStatements
import WebServ.Soundness.QueueStatements
import WebServ.Soundness.LogProgress
import WebServ.Soundness.ResponseReader
import WebServ.Soundness.Exchange
import WebServ.Model.Workers
import WebServ.Soundness.Workers
import WebServ.Proofs.Renewal
import WebServ.Model.MainLoop
import WebServ.Soundness.MainLoop
import WebServ.Model.WebServer
import WebServ.Soundness.WebServer
import WebServ.Soundness.Registration
import WebServ.Soundness.Network
import WebServ.Soundness.Clients
import WebServ.Model.MemoryServer
import WebServ.Soundness.MemoryServer
import WebServ.Soundness.FormRequest
import WebServ.Soundness.Accounts
