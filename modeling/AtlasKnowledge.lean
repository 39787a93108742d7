import AtlasKnowledge.Lib.Transition
import AtlasKnowledge.Lib.Interleave
import AtlasKnowledge.Pipeline.Data
import AtlasKnowledge.Pipeline.Store
import AtlasKnowledge.Pipeline.Task
import AtlasKnowledge.Pipeline.System
import AtlasKnowledge.Pipeline.ReadyEmbedded
import AtlasKnowledge.Pipeline.ReadyFinal
import AtlasKnowledge.Pipeline.Solo
import AtlasKnowledge.Pipeline.Transparent
import AtlasKnowledge.Pipeline.Exhaustion
import AtlasKnowledge.Auth.Service
import AtlasKnowledge.Auth.Sessions
import AtlasKnowledge.Auth.SingleUse
import AtlasKnowledge.Auth.Revocation
import AtlasKnowledge.Auth.Atomic
import AtlasKnowledge.Auth.Replay
import AtlasKnowledge.Auth.Accounts
import AtlasKnowledge.Lib.Scan
import AtlasKnowledge.Lib.Str
import AtlasKnowledge.Parsing.Blocks
import AtlasKnowledge.Parsing.Text
import AtlasKnowledge.Parsing.LineEndings
import AtlasKnowledge.Chat.Data
import AtlasKnowledge.Chat.Prompts
import AtlasKnowledge.Chat.Turn
import AtlasKnowledge.Chat.Rows
import AtlasKnowledge.Chat.SavedOnce
import AtlasKnowledge.Chat.Disconnect
import AtlasKnowledge.Chat.Source
import AtlasKnowledge.Chat.Protocol
import AtlasKnowledge.Lib.Utf8
import AtlasKnowledge.Lib.Frames
import AtlasKnowledge.Sse.Format
import AtlasKnowledge.Sse.StreamChat
import AtlasKnowledge.Chat.Delivery
import AtlasKnowledge.Chat.Shown
import AtlasKnowledge.Pipeline.Purged
import AtlasKnowledge.Pipeline.StageRetry
import AtlasKnowledge.Pipeline.Restart
import AtlasKnowledge.Pipeline.Resume
import AtlasKnowledge.Chat.Citations
import AtlasKnowledge.Lib.Base64
import AtlasKnowledge.Lib.Datetime
import AtlasKnowledge.Lib.Keyset
import AtlasKnowledge.Lib.Uuid
import AtlasKnowledge.Domain.Errors
import AtlasKnowledge.Pagination.Cursor
import AtlasKnowledge.Lib.Table
import AtlasKnowledge.Services.Db
import AtlasKnowledge.Services.Queries
import AtlasKnowledge.Services.Traversal
import AtlasKnowledge.Lib.Observer
import AtlasKnowledge.Services.View
import AtlasKnowledge.Services.Writes
import AtlasKnowledge.Services.Operations
import AtlasKnowledge.Services.Isolation
import AtlasKnowledge.Lib.Dict
import AtlasKnowledge.Lib.Relation
import AtlasKnowledge.Retrieval.HybridSearch
import AtlasKnowledge.Retrieval.Tsquery
import AtlasKnowledge.Retrieval.Isolation
import AtlasKnowledge.Chunking.Tokens
import AtlasKnowledge.Lib.Packing
import AtlasKnowledge.Chunking.Split
import AtlasKnowledge.Chunking.Builder
import AtlasKnowledge.Chunking.Runs
import AtlasKnowledge.Chunking.Content
import AtlasKnowledge.Parsing.Finalized
import AtlasKnowledge.Chunking.Tables
import AtlasKnowledge.Chunking.Blank
import AtlasKnowledge.Chunking.TokenTarget
import AtlasKnowledge.Lib.Enclosing
import AtlasKnowledge.Chunking.HeadingPath
import AtlasKnowledge.Frontend.MessagesCache
import AtlasKnowledge.Frontend.LoadEarlier
import AtlasKnowledge.Frontend.Sends
import AtlasKnowledge.Services.Turns
import AtlasKnowledge.Services.History
import AtlasKnowledge.Services.Resends
import AtlasKnowledge.Lib.Fallible
import AtlasKnowledge.Lib.Json
import AtlasKnowledge.Domain.Provider
import AtlasKnowledge.Embedding.OpenAiCompat
import AtlasKnowledge.Embedding.OwnText
import AtlasKnowledge.Llm.OpenAiCompat
import AtlasKnowledge.Llm.StreamContract
import AtlasKnowledge.Lib.Forest
import AtlasKnowledge.Parsing.Html
import AtlasKnowledge.Parsing.HtmlOnce
import AtlasKnowledge.Chunking.SplitLimit
import AtlasKnowledge.Sse.Crlf
import AtlasKnowledge.Parsing.FinalizeSpec
import AtlasKnowledge.Parsing.Pdf
import AtlasKnowledge.Parsing.MarkdownScan
import AtlasKnowledge.Retrieval.Fusion
import AtlasKnowledge.Services.Upload
import AtlasKnowledge.Embedding.Cache
import AtlasKnowledge.Lib.Assertions
import AtlasKnowledge.Pipeline.Moves
import AtlasKnowledge.Pipeline.Content
import AtlasKnowledge.Pipeline.Embeddings
import AtlasKnowledge.Pipeline.Failures
import AtlasKnowledge.Frontend.Client
import AtlasKnowledge.Frontend.Session
import AtlasKnowledge.Frontend.Rotation
import AtlasKnowledge.Services.UploadSystem
import AtlasKnowledge.Services.UploadInvariant
import AtlasKnowledge.Services.UploadOnce
import AtlasKnowledge.Services.UploadStorage
import AtlasKnowledge.Services.Titles
import AtlasKnowledge.Lib.FileTree
import AtlasKnowledge.Storage.LocalFs
