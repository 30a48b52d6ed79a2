import TouchHLE.Env.WaitingCount
import TouchHLE.Libc.PrintfVariadic
import TouchHLE.Libc.Readiness
import TouchHLE.Dyld.SvcWords
import TouchHLE.Dyld.LoadOrder
import TouchHLE.Objc.Reconciliation
import TouchHLE.Objc.Messages
import TouchHLE.Foundation.AutoreleasePool
import TouchHLE.Foundation.Lookups
import TouchHLE.Foundation.RunLoopTimers
import TouchHLE.Foundation.NibLeaves
import TouchHLE.Foundation.ObjectGraphs
import TouchHLE.Foundation.PlistRoundTrip
import TouchHLE.Fs.Directories
import TouchHLE.UIKit.TouchProtocol
import TouchHLE.Foundation.Posting
import TouchHLE.Foundation.ThreadOwnership
import TouchHLE.Fs.Enumeration
import TouchHLE.Fs.Bundle
import TouchHLE.Libc.Seeking
import TouchHLE.Libc.Fgets
import TouchHLE.Libc.SortedSearch
import TouchHLE.Libc.PrintedIntegers
import TouchHLE.Libc.Strtok
import TouchHLE.Libc.Environ
import TouchHLE.Libc.Fgetc
import TouchHLE.Libc.Multibyte
import TouchHLE.Libc.Vsnprintf
import TouchHLE.Libc.ScanfWidth
import TouchHLE.Libc.Terminator
import TouchHLE.Env.PthreadMutex
import TouchHLE.Env.SemaphoreWaiters
import TouchHLE.Foundation.PathComponents
import TouchHLE.Foundation.IntScanning
import TouchHLE.Libc.GenericChar
import TouchHLE.Libc.Mktime
import TouchHLE.Env.MainStack
import TouchHLE.Gdb.Handlers
import TouchHLE.Foundation.StringSearch
import TouchHLE.Foundation.LineRanges
import TouchHLE.Foundation.CFCollections
import TouchHLE.AudioToolbox.DecodeBuffer
import TouchHLE.AudioToolbox.StoppedQueues
import TouchHLE.AudioToolbox.BufferOwnership
import TouchHLE.Libc.FdSets
import TouchHLE.Objc.Selectors
import TouchHLE.CoreAnimation.Conservation
import TouchHLE.Mem.ChunkIndexes
import TouchHLE.Foundation.ArchiveShape
import TouchHLE.UIKit.TouchOwnership
import TouchHLE.CoreAnimation.LayerConversion
import TouchHLE.CoreGraphics.BitmapContext
import TouchHLE.Foundation.Numbers
import TouchHLE.Foundation.MutableData
import TouchHLE.Env.Turns
