import NamedSets.Client
import NamedSets.Message.Script
import NamedSets.Message.Segment
import NamedSets.OptionQuery
import NamedSets.Proofs.Attr.Boundaries
import NamedSets.Proofs.Attr.Forest
import NamedSets.Proofs.Attr.Reading
import NamedSets.Proofs.Catalog
import NamedSets.Proofs.Catalog.Loading
import NamedSets.Proofs.Catalog.Unambiguous
import NamedSets.Proofs.Client
import NamedSets.Proofs.Client.Unprivileged
import NamedSets.Proofs.Connection.Delivery
import NamedSets.Proofs.Datum.Boundaries
import NamedSets.Proofs.Datum.Reading
import NamedSets.Proofs.Datum.Refusals
import NamedSets.Proofs.Dump
import NamedSets.Proofs.Dump.Chapters
import NamedSets.Proofs.Dump.Page
import NamedSets.Proofs.Dump.Parameters
import NamedSets.Proofs.Dump.Steps
import NamedSets.Proofs.Dump.Termination
import NamedSets.Proofs.Engine.Batches
import NamedSets.Proofs.Engine.Changes
import NamedSets.Proofs.Message.Contents
import NamedSets.Proofs.Message.Drafts
import NamedSets.Proofs.Message.Echoes
import NamedSets.Proofs.Message.Frames
import NamedSets.Proofs.Message.LineSpots
import NamedSets.Proofs.Message.Lines
import NamedSets.Proofs.Message.Reading
import NamedSets.Proofs.OptionQuery
import NamedSets.Proofs.Session.Basic
import NamedSets.Proofs.Session.Chunks
import NamedSets.Proofs.Session.Descriptions
import NamedSets.Proofs.Session.FailingLines
import NamedSets.Proofs.Session.Forwarding
import NamedSets.Proofs.Session.Growing
import NamedSets.Proofs.Session.HashListings
import NamedSets.Proofs.Session.History
import NamedSets.Proofs.Session.ListListings
import NamedSets.Proofs.Session.Listings
import NamedSets.Proofs.Session.Names
import NamedSets.Proofs.Session.Nesting
import NamedSets.Proofs.Session.Places
import NamedSets.Proofs.Session.Recreation
import NamedSets.Proofs.Session.Refusals
import NamedSets.Proofs.Session.Repeating
import NamedSets.Proofs.Session.Restoring
import NamedSets.Proofs.Session.Sequences
import NamedSets.Proofs.Session.SingleDumps
import NamedSets.Proofs.Session.Soundness
import NamedSets.Proofs.Session.Stability
import NamedSets.Proofs.Session.Sweeps
import NamedSets.Proofs.Session.Turns
import NamedSets.Proofs.Session.Undisturbed
import NamedSets.Proofs.Storage.AddressHash
import NamedSets.Proofs.Storage.Prefixes
import NamedSets.Proofs.Table.Accounts
import NamedSets.Proofs.Table.Balance
import NamedSets.Proofs.Table.Chunks
import NamedSets.Proofs.Table.Courses
import NamedSets.Proofs.Table.Cursors
import NamedSets.Proofs.Table.Edits
import NamedSets.Proofs.Table.Elements
import NamedSets.Proofs.Table.Forwarding
import NamedSets.Proofs.Table.Labels
import NamedSets.Proofs.Table.Listable
import NamedSets.Proofs.Table.Loops
import NamedSets.Proofs.Table.Map
import NamedSets.Proofs.Table.Members
import NamedSets.Proofs.Table.Names
import NamedSets.Proofs.Table.Nesting
import NamedSets.Proofs.Table.Packets
import NamedSets.Proofs.Table.Repeating
import NamedSets.Proofs.Table.Retries
import NamedSets.Proofs.Table.Settling
import NamedSets.Proofs.Table.Slots
import NamedSets.Proofs.Table.Stability
import NamedSets.Proofs.Table.Transfers
