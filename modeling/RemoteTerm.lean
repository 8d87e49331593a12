import RemoteTerm.Radio.ChannelSendSafety
import RemoteTerm.Radio.PendingChannel
import RemoteTerm.Radio.ContactRoute
import RemoteTerm.Compression.CdfCodable
import RemoteTerm.Compression.Mcotxt.Hostile
import RemoteTerm.Compression.Mcotxt.CaseOptimal
import RemoteTerm.Compression.Mcotxt.PlanOptimal
import RemoteTerm.Imaging.Reassembly
import RemoteTerm.Imaging.Masks
import RemoteTerm.Imaging.HostileBlobs
import RemoteTerm.Imaging.RansHostile
import RemoteTerm.Imaging.RansRoundTrip
import RemoteTerm.Media.RawMediaTunnel
import RemoteTerm.Media.ChunkLimit
import RemoteTerm.Media.ImageIngest
import RemoteTerm.Media.MediaPackets
import RemoteTerm.Messages.AckOrder
import RemoteTerm.Messages.AckOnce
import RemoteTerm.Messages.AckExpiry
import RemoteTerm.Messages.CancelFinal
import RemoteTerm.Messages.RetryBound
import RemoteTerm.Messages.SenderTimestamp
import RemoteTerm.Messages.PrefixClaim
import RemoteTerm.Messages.TunnelText
import RemoteTerm.Packets.PacketIdentity
import RemoteTerm.LiveFeed.Scope
import RemoteTerm.LiveFeed.LiveText
import RemoteTerm.LiveFeed.Gaps
import RemoteTerm.VirtualNode.CommandGate
import RemoteTerm.VirtualNode.HistoryDelivery
import RemoteTerm.VirtualNode.HostFrames
import RemoteTerm.VirtualNode.SlotDurable
import RemoteTerm.Bots.Cooldown
import RemoteTerm.Bots.QueuedUsers
import RemoteTerm.Bots.CronTicks
import RemoteTerm.Bots.Feeds
import RemoteTerm.Bots.FeedItems
import RemoteTerm.Bots.StateRuns
import RemoteTerm.Bots.MailboxReading
import RemoteTerm.Bots.MailboxCapacity
import RemoteTerm.Bots.SmsRouting
import RemoteTerm.Frontend.ConversationMessages
import RemoteTerm.Frontend.PathDistance
import RemoteTerm.Frontend.TextReplace
