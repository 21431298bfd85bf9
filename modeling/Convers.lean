import Convers.Text
import Convers.Protocol.Wire
import Convers.Protocol.LineAssembler
import Convers.Protocol.LineStream
import Convers.Protocol.Tokenizer
import Convers.Protocol.HostCommandCodec
import Convers.Protocol.Compression
import Convers.Protocol.Numerals
import Convers.Core.ConversHub
import Convers.Core.HubAnswer
import Convers.Core.Presence
import Convers.Core.Authority
import Convers.Core.Modes
import Convers.Core.Topics
import Convers.Core.Roster
import Convers.Core.Invitations
import Convers.Core.OperatorFlags
import Convers.Core.Gates
import Convers.Core.Tenure
import Convers.Core.Sightings
import Convers.Host.HostLinkEngine
import Convers.Host.OneCommand
import Convers.Host.Dispatch
import Convers.Host.HostLink
import Convers.Host.Node
import Convers.Host.Handshake
import Convers.Host.RoundTrip
import Convers.Host.Backoff
import Convers.Host.Personal
import Convers.Host.GoldenRule
import Convers.Host.HostLinkCompression
import Convers.Host.CompressingLineTransport
import Convers.Host.ReadTurns
import Convers.Host.CompressingLink
import Convers.Host.Relay
import Convers.Host.Loop
import Convers.Host.Mirror
import Convers.Host.Parent
import Convers.Host.Announce
import Convers.Host.InboundDemux
import Convers.Host.Password
import Convers.Core.FanOut
import Convers.Core.Refusals
import Convers.Core.Notices
import Convers.Core.StoredTopics
import Convers.Host.Forwarding
import Convers.Host.Listings
import Convers.Core.Entries
import Convers.Host.Picture
import Convers.Host.Rebuild
import Convers.Lib.Script
import Convers.Host.ChatLog
import Convers.Host.WebChat
import Convers.Host.Sessions
import Convers.Host.Composition
import Convers.Host.Retold
import Convers.Host.Logging
import Convers.Host.Secrecy
import Convers.Host.ConsoleSession
import Convers.Host.Undisturbed
import Convers.Host.Reports
import Convers.Host.MalformedFrames
import Convers.Host.Identity
import Convers.Host.Silence
import Convers.Host.WholeStreams
import Convers.Host.UserTerminal
import Convers.Host.SessionScripts
import Convers.Host.Mishaps
import Convers.Host.SignOffs
import Convers.Host.WebEntries
import Convers.Lib.Flood
import Convers.Host.Established
import Convers.Host.Network
import Convers.Host.Whereabouts
import Convers.Host.SharedTopics
import Convers.Host.Authorship
import Convers.Lib.Abbreviation
import Convers.Console.Vocabulary
import Convers.Console.ConsoleParser
import Convers.Lib.Heartbeat
import Convers.Host.Timetable
import Convers.Protocol.Unbroken
import Convers.Core.Unbroken
import Convers.Host.Framing
import Convers.Lib.Markup
import Convers.Host.PageMarkup
