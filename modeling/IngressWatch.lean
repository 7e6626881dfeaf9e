import IngressWatch.Acme.AccountKey
import IngressWatch.Acme.Challenge
import IngressWatch.Acme.Issued
import IngressWatch.Acme.Signer
import IngressWatch.Aggregator
import IngressWatch.Base64
import IngressWatch.Bytes
import IngressWatch.Calendar
import IngressWatch.Certificate.Basic
import IngressWatch.Certificate.Time
import IngressWatch.Change
import IngressWatch.CommandLine
import IngressWatch.CredentialStore
import IngressWatch.Debounce
import IngressWatch.Der.Canonical
import IngressWatch.Der.Element
import IngressWatch.Dict
import IngressWatch.Digest.Fingerprint
import IngressWatch.Digest.Sha2
import IngressWatch.Document
import IngressWatch.Draining
import IngressWatch.Error
import IngressWatch.Files.Disk
import IngressWatch.Files.Path
import IngressWatch.Key
import IngressWatch.LogFilter
import IngressWatch.Lookup
import IngressWatch.Main
import IngressWatch.Mirror
import IngressWatch.Mirrors
import IngressWatch.Pem.Armor
import IngressWatch.Pem.Block
import IngressWatch.Pem.Section
import IngressWatch.PrivateKey.Basic
import IngressWatch.PrivateKey.Curve
import IngressWatch.PrivateKey.Edwards
import IngressWatch.PrivateKey.Rsa
import IngressWatch.Proofs.Account
import IngressWatch.Proofs.Announcements
import IngressWatch.Proofs.Answers
import IngressWatch.Proofs.Bundles
import IngressWatch.Proofs.Catalogue
import IngressWatch.Proofs.Checks
import IngressWatch.Proofs.Confinement
import IngressWatch.Proofs.Custody
import IngressWatch.Proofs.Draining
import IngressWatch.Proofs.Entries
import IngressWatch.Proofs.FailedWrites
import IngressWatch.Proofs.Feed
import IngressWatch.Proofs.FileNames
import IngressWatch.Proofs.Files
import IngressWatch.Proofs.Fingerprints
import IngressWatch.Proofs.Freshness
import IngressWatch.Proofs.Isolation
import IngressWatch.Proofs.Issuance
import IngressWatch.Proofs.Keys
import IngressWatch.Proofs.Lines
import IngressWatch.Proofs.Lookup
import IngressWatch.Proofs.Overwrites
import IngressWatch.Proofs.OwnEntries
import IngressWatch.Proofs.Recall
import IngressWatch.Proofs.Repetition
import IngressWatch.Proofs.Replay
import IngressWatch.Proofs.Reporting
import IngressWatch.Proofs.Selectors
import IngressWatch.Proofs.Separation
import IngressWatch.Proofs.Serving
import IngressWatch.Proofs.Snapshots
import IngressWatch.Proofs.Staging
import IngressWatch.Proofs.Store
import IngressWatch.Proofs.Stranded
import IngressWatch.Proofs.Timeline
import IngressWatch.Proofs.Timing
import IngressWatch.Proofs.Tokens
import IngressWatch.Proofs.Wakeups
import IngressWatch.Remote.Request
import IngressWatch.Remote.Write
import IngressWatch.Report
import IngressWatch.Resolver
import IngressWatch.Resource.Basic
import IngressWatch.Resource.Manifest
import IngressWatch.Selector
import IngressWatch.Settings
import IngressWatch.Startup
import IngressWatch.Table
import IngressWatch.Text.Blank
import IngressWatch.TlsChecks
import IngressWatch.Watch.Binding
import IngressWatch.Watch.Session
import IngressWatch.Watch.Watches
import IngressWatch.Window
