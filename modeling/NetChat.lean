import NetChat.Lib.Prog
import NetChat.Lib.Threads
import NetChat.Lib.Numbering
import NetChat.Lib.Queue
import NetChat.Lib.Refine
import NetChat.Lib.Wire
import NetChat.Base
import NetChat.Messages
import NetChat.Wire
import NetChat.DataAccess
import NetChat.Keys
import NetChat.State
import NetChat.Stream
import NetChat.ReadLoop
import NetChat.Server
import NetChat.System
import NetChat.Turns.Owners
import NetChat.Turns.Worker
import NetChat.Turns.Sender
import NetChat.Turns.Requests
import NetChat.Turns.Login
import NetChat.Turns.SendMessage
import NetChat.Turns.SetupChannel
import NetChat.Turns.Files
import NetChat.Turns
import NetChat.Frames
import NetChat.Handling
import NetChat.Registered
import NetChat.Queues
import NetChat.InternalIds
import NetChat.Sequential
import NetChat.OneMessage
import NetChat.RowIds
import NetChat.Addressed
import NetChat.Pull
import NetChat.Epoll
import NetChat.Channel
import NetChat.Provenance
import NetChat.Tokens
import NetChat.Authorised
import NetChat.Released
import NetChat.Challenge
import NetChat.Consumed
import NetChat.Replay
import NetChat.Login
import NetChat.Uploads
import NetChat.Rejected
import NetChat.Failures
import NetChat.Malformed
import NetChat.Pending
import NetChat.Download
import NetChat.WriteOnce
import NetChat.Announced
import NetChat.FilePaths
import NetChat.Marker
import NetChat.Order
import NetChat.Sending
import NetChat.Delivery
import NetChat.Boot
import NetChat.Fifo
import NetChat.Integrity
import NetChat.Restart
import NetChat.Replies
import NetChat.Contacts
import NetChat.Room
import NetChat.Fits
import NetChat.Locks
import NetChat.Holding
import NetChat.Atomic
import NetChat.Follows
import NetChat.Guarded
import NetChat.Races
import NetChat.Wakeups
