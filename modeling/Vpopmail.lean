import Vpopmail.AddDomain
import Vpopmail.AddDomainUndone
import Vpopmail.AddedLines
import Vpopmail.AddressForms
import Vpopmail.AliasDomains
import Vpopmail.AliasEnumeration
import Vpopmail.AliasFiles
import Vpopmail.AliasMigration
import Vpopmail.AssignCache
import Vpopmail.AssignLookup
import Vpopmail.Base64
import Vpopmail.Base64RoundTrip
import Vpopmail.Catchall
import Vpopmail.CatchallDetection
import Vpopmail.Client
import Vpopmail.ClientReplies
import Vpopmail.Config.Comments
import Vpopmail.Config.Includes
import Vpopmail.Config.Parsing
import Vpopmail.Config.RemovedComments
import Vpopmail.Config.RoundTrip
import Vpopmail.Config.Tokens
import Vpopmail.ControlFiles
import Vpopmail.ControlRemoval
import Vpopmail.Conversion
import Vpopmail.DefaultDomain
import Vpopmail.DefaultDomainAgreement
import Vpopmail.DeliveryIndependence
import Vpopmail.DirectoryAllocation
import Vpopmail.DomainAssign
import Vpopmail.DomainDirectory
import Vpopmail.DomainEntries
import Vpopmail.DomainQuota
import Vpopmail.EmailAgreement
import Vpopmail.EmailParsing
import Vpopmail.EntryEnumeration
import Vpopmail.EzmlmNames
import Vpopmail.Foundation.Aliases
import Vpopmail.Foundation.Binary64
import Vpopmail.Foundation.Chunks
import Vpopmail.Foundation.Components
import Vpopmail.Foundation.Copying
import Vpopmail.Foundation.Database
import Vpopmail.Foundation.Directory
import Vpopmail.Foundation.FileTree
import Vpopmail.Foundation.Following
import Vpopmail.Foundation.Framing
import Vpopmail.Foundation.LinkedList
import Vpopmail.Foundation.LinkedTree
import Vpopmail.Foundation.Network
import Vpopmail.Foundation.Queue
import Vpopmail.Foundation.Records
import Vpopmail.Foundation.SqlLiteral
import Vpopmail.Foundation.Updates
import Vpopmail.Foundation.Worklist
import Vpopmail.FreeSlots
import Vpopmail.Group
import Vpopmail.GroupData
import Vpopmail.GroupLoading
import Vpopmail.GroupMembership
import Vpopmail.IpMap
import Vpopmail.IpMapAgreement
import Vpopmail.Ippp
import Vpopmail.LoopDetection
import Vpopmail.MaildirAccounts
import Vpopmail.MaildirEmail
import Vpopmail.MailingListAgreement
import Vpopmail.MailingLists
import Vpopmail.NoDangling
import Vpopmail.OpenRelay
import Vpopmail.Openldap.Smd5
import Vpopmail.Pwstr
import Vpopmail.Qnprintf
import Vpopmail.QueryFormats
import Vpopmail.Quota
import Vpopmail.QuotaCanonical
import Vpopmail.QuotaEngines
import Vpopmail.QuotaMeaning
import Vpopmail.QuotaReading
import Vpopmail.RelayTable
import Vpopmail.RelayUpdates
import Vpopmail.RepeatedLines
import Vpopmail.SortKeys
import Vpopmail.SortedInsertion
import Vpopmail.SpamDetection
import Vpopmail.StringLists
import Vpopmail.StringSearch
import Vpopmail.UpdateFile
import Vpopmail.UpdatedFiles
import Vpopmail.UserCount
import Vpopmail.UserDirectories
import Vpopmail.Vadduser
import Vpopmail.Vcdb.AccountFrames
import Vpopmail.Vcdb.AccountUpdates
import Vpopmail.Vcdb.Lookup
import Vpopmail.Vcdb.RoundTrip
import Vpopmail.Vcdb.Store
import Vpopmail.Vchkpw
import Vpopmail.Vdelfiles
import Vpopmail.Vdeloldusers
import Vpopmail.Vldap.ExactLookup
import Vpopmail.Vldap.RoundTrip
import Vpopmail.VlimitsReads
import Vpopmail.VlimitsReference
import Vpopmail.Vlistlib
import Vpopmail.Vmysql.DomainTables
import Vpopmail.Vmysql.Limits
import Vpopmail.Vopenldap.Passwd
import Vpopmail.Vopenldap.PasswordChange
import Vpopmail.Vpgsql.Truthful
import Vpopmail.Vpopmaild.BodyFraming
import Vpopmail.Vpopmaild.DomainPages
import Vpopmail.Vpopmaild.ModUser
import Vpopmail.Vpopmaild.NoPasswdChng
import Vpopmail.Vpopmaild.PathConfinement
import Vpopmail.Vpopmaild.Privileges
import Vpopmail.Vusaged.ClientTimeouts
import Vpopmail.Vusaged.Connections
import Vpopmail.Vusaged.DirectoryDiscovery
import Vpopmail.Vusaged.DirectoryPolling
import Vpopmail.Vusaged.FileSizes
import Vpopmail.Vusaged.Grow
import Vpopmail.Vusaged.GrowSizes
import Vpopmail.Vusaged.Packet
import Vpopmail.Vusaged.PacketFraming
import Vpopmail.Vusaged.QueueProtocol
import Vpopmail.Vusaged.Socket
import Vpopmail.Vusaged.SocketHandlers
import Vpopmail.Vusaged.SocketLifetime
import Vpopmail.Vusaged.UserlistPass
import Vpopmail.Vusaged.Userstore
import Vpopmail.Vusaged.Vdb
import Vpopmail.Vusaged.VdbRecords
import Vpopmail.Vusaged.VdbRoundTrip
import Vpopmail.WildcardAliases
