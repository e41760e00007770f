import SmtpClient.AddressFallback
import SmtpClient.AddressFields
import SmtpClient.ClientLoop
import SmtpClient.Conservation
import SmtpClient.Coverage
import SmtpClient.CursorSafety
import SmtpClient.DataFraming
import SmtpClient.Deadlines
import SmtpClient.Delivery
import SmtpClient.Doubling
import SmtpClient.Frames
import SmtpClient.FsmDefinition
import SmtpClient.FullSessions
import SmtpClient.Independence
import SmtpClient.LinkedCleanup
import SmtpClient.LinkedCycle
import SmtpClient.LinkedRefinement
import SmtpClient.LinkedTransfer
import SmtpClient.LocalFiltering
import SmtpClient.LogFraming
import SmtpClient.LoggedReplies
import SmtpClient.MailGrammar
import SmtpClient.MailLogs
import SmtpClient.MailPaths
import SmtpClient.MessageBuffer
import SmtpClient.MxSelection
import SmtpClient.MxSockets
import SmtpClient.ObligingServers
import SmtpClient.PollSet
import SmtpClient.Processes
import SmtpClient.QueueCursors
import SmtpClient.RcptLines
import SmtpClient.ReadableService
import SmtpClient.ReplyClasses
import SmtpClient.SeenLines
import SmtpClient.Segmentation
import SmtpClient.SentFlags
