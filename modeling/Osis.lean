import Osis.Lab01.Termination
import Osis.Lab02.Session
import Osis.Lab02.Stores
import Osis.Lab03.Commands
import Osis.Lab03.Leaving
import Osis.Lab03.Names
import Osis.Lab03.Reaping
import Osis.Lab03.Silence
import Osis.Lab03.Statistics
import Osis.Lab03.Turns
import Osis.Lab04.Ending
import Osis.Lab04.Entries
import Osis.Lab05.CondQueue.Ownership
import Osis.Lab05.CondQueue.Removal
import Osis.Lab05.CondQueue.Shutdown
import Osis.Lab05.Hash
import Osis.Lab05.SemQueue.Progress
import Osis.Lab06.Accesses
import Osis.Lab06.Calendar
import Osis.Lab06.Exclusive
import Osis.Lab06.Merging
import Osis.Lab06.Pipeline
import Osis.Lab06.Windows
import Osis.Lab07.Editing
import Osis.Lab07.Protection
import Osis.Lab07.Roster
import Osis.Lab08.Conversation
import Osis.Lab08.Links
import Osis.Lab08.Pending
import Osis.Lab08.Segmentation
import Osis.Lab08.Session
import Osis.CourseWork.Bypass
import Osis.CourseWork.Collisions
import Osis.CourseWork.Contents
import Osis.CourseWork.Emptying
import Osis.CourseWork.GoingUp
import Osis.CourseWork.Records
import Osis.CourseWork.Recovery
import Osis.CourseWork.Restoring
import Osis.CourseWork.Scrolling
import Osis.CourseWork.Showing
import Osis.CourseWork.TrashView
